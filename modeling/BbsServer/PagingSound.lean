import Mathlib.Data.Int.Interval
import BbsServer.ListingSound

/-!
# Pages

The arithmetic of `file_list` on `limit` and `page` as a client sends them (`paging_safe_iff`), and the pages of
a table against the page count in the trailer (`pages_cover_iff`).
-/

namespace BbsServer

open CStr

/-! ## The arithmetic -/

/-- The value of a signed operation: one that does not fit an `int` is an overflow. -/
def int32 (x : Int) : M Int := if toInt x = x then .ok x else .error (.fault .overflow)

def divInt (a b : Int) : M Int := if b = 0 then .error (.fault .divByZero) else int32 (a.tdiv b)

def modInt (a b : Int) : M Int := do
  let _ ← divInt a b
  .ok (a.tmod b)

def pagesCountArith (fullCount limit : Int) : M Int := do
  let pagesCount ← divInt fullCount limit
  let pagesCount := if pagesCount = 0 then 1 else pagesCount
  if fullCount > limit then
    if (← modInt pagesCount limit) ≠ 0 then int32 (pagesCount + 1) else .ok pagesCount
  else .ok pagesCount

/-- What `file_list` computes: the offset, the page count, and the rows from this page on. -/
def fileListArith (page limit fullCount : Int) : M (Int × Int × Int) := do
  let offset ← int32 (limit * (← int32 (page - 1)))
  let pagesCount ← pagesCountArith fullCount limit
  let skipped ← int32 ((← int32 (page - 1)) * limit)
  let rest ← int32 (fullCount - skipped)
  .ok (offset, pagesCount, rest)

def pagesCount (fullCount limit : Int) : Int :=
  let pagesCount := fullCount.tdiv limit
  let pagesCount := if pagesCount = 0 then 1 else pagesCount
  if fullCount > limit ∧ pagesCount.tmod limit ≠ 0 then toInt (pagesCount + 1) else pagesCount

def trailer (page pages count rest : Int) : Bytes :=
  ascii ":END: PAGE " ++ decimal (page % 2 ^ 32).toNat ++ ascii "/" ++ decimalInt pages ++ ascii " COUNT: " ++
    decimalInt count ++ ascii "/" ++ decimalInt rest ++ [nl]

def fitsInt (x : Int) : Prop := -2 ^ 31 ≤ x ∧ x < 2 ^ 31

section
variable {x a b page limit fullCount count : Int}

theorem toInt_eq_iff : toInt x = x ↔ fitsInt x := by
  refine ⟨fun h => ?_, fun h => toInt_of_lt h.1 h.2⟩
  have h1 : -2 ^ 31 ≤ toInt x := Int.le_bmod (by decide)
  have h2 : toInt x < 2 ^ 31 := Int.bmod_lt (by decide)
  rw [h] at h1 h2
  exact ⟨h1, h2⟩

theorem int32_ok {y : Int} : int32 x = .ok y ↔ fitsInt x ∧ x = y := by
  unfold int32
  rw [← toInt_eq_iff]
  split <;> simp [*]

theorem divInt_ok {y : Int} : divInt a b = .ok y ↔ b ≠ 0 ∧ fitsInt (a.tdiv b) ∧ a.tdiv b = y := by
  unfold divInt
  by_cases hb : b = 0
  · simp [hb]
  · rw [if_neg hb, int32_ok]
    simp [hb]

theorem modInt_ok {y : Int} : modInt a b = .ok y ↔ b ≠ 0 ∧ fitsInt (a.tdiv b) ∧ a.tmod b = y := by
  unfold modInt
  rw [bind_ok]
  constructor
  · rintro ⟨q, hq, h⟩
    cases h
    obtain ⟨hb, hf, -⟩ := divInt_ok.mp hq
    exact ⟨hb, hf, rfl⟩
  · rintro ⟨hb, hf, rfl⟩
    exact ⟨_, divInt_ok.mpr ⟨hb, hf, rfl⟩, rfl⟩

theorem fitsInt_tdiv (ha : 0 ≤ a) (h : a < 2 ^ 31) : fitsInt (a.tdiv b) := by
  have := Int.natAbs_tdiv_le_natAbs a b
  exact ⟨by omega, by omega⟩

theorem tdiv_le_half (h0 : 0 ≤ a) (hb0 : b ≠ 0) (hb : b ≠ 1) : 2 * a.tdiv b ≤ a := by
  rcases Int.lt_or_gt_of_ne hb0 with h | h
  · have := Int.tdiv_nonpos_of_nonneg_of_nonpos h0 h.le
    omega
  · have hq : 0 ≤ a.tdiv b := Int.tdiv_nonneg h0 h.le
    calc 2 * a.tdiv b ≤ b * a.tdiv b := Int.mul_le_mul_of_nonneg_right (by omega) hq
      _ ≤ a := Int.mul_tdiv_self_le h0

theorem pages_fit (h0 : 0 ≤ fullCount) (h1 : fullCount < 2 ^ 31) (hl : limit ≠ 0) :
    let q := if fullCount.tdiv limit = 0 then 1 else fullCount.tdiv limit
    fitsInt (q.tdiv limit) ∧ (q.tmod limit ≠ 0 → fitsInt (q + 1)) := by
  intro q
  have habs : (fullCount.tdiv limit).natAbs ≤ fullCount.natAbs := Int.natAbs_tdiv_le_natAbs ..
  have hqabs : q.natAbs < 2 ^ 31 := by
    show (if fullCount.tdiv limit = 0 then 1 else fullCount.tdiv limit).natAbs < 2 ^ 31
    split <;> omega
  have hdiv : (q.tdiv limit).natAbs ≤ q.natAbs := Int.natAbs_tdiv_le_natAbs ..
  refine ⟨⟨by omega, by omega⟩, fun hmod => ?_⟩
  have hone : limit ≠ 1 := by
    intro h
    subst h
    exact hmod (Int.tmod_one q)
  have hhalf := tdiv_le_half h0 hl hone
  have hle : q ≤ 2 ^ 31 - 2 := by
    show (if fullCount.tdiv limit = 0 then 1 else fullCount.tdiv limit) ≤ 2 ^ 31 - 2
    split <;> omega
  exact ⟨by omega, by omega⟩

theorem pagesCountArith_ok (h0 : 0 ≤ fullCount) (h1 : fullCount < 2 ^ 31) (hl : limit ≠ 0) :
    pagesCountArith fullCount limit = .ok (pagesCount fullCount limit) := by
  obtain ⟨hdiv, hinc⟩ := pages_fit h0 h1 hl
  unfold pagesCountArith pagesCount
  rw [divInt_ok.mpr ⟨hl, fitsInt_tdiv h0 h1, rfl⟩, ok_bind]
  dsimp only at *
  generalize (if fullCount.tdiv limit = 0 then 1 else fullCount.tdiv limit) = q at *
  by_cases hgt : fullCount > limit
  · rw [if_pos hgt, modInt_ok.mpr ⟨hl, hdiv, rfl⟩, ok_bind]
    by_cases hm : q.tmod limit = 0
    · simp [hm]
    · rw [if_pos hm, if_pos ⟨hgt, hm⟩, int32_ok]
      exact ⟨hinc hm, (toInt_eq_iff.mpr (hinc hm)).symm⟩
  · simp [hgt]

theorem pagesCountArith_zero {r : Int} : pagesCountArith fullCount 0 ≠ .ok r := by
  unfold pagesCountArith
  intro h
  obtain ⟨q, hq, -⟩ := bind_ok.mp h
  exact (divInt_ok.mp hq).1 rfl

theorem fileListArith_ok (h0 : 0 ≤ fullCount) (h1 : fullCount < 2 ^ 31) {r : Int × Int × Int} :
    fileListArith page limit fullCount = .ok r ↔ limit ≠ 0 ∧ fitsInt (page - 1) ∧ fitsInt (limit * (page - 1)) ∧
      fitsInt (fullCount - limit * (page - 1)) ∧
      r = (limit * (page - 1), pagesCount fullCount limit, fullCount - limit * (page - 1)) := by
  unfold fileListArith
  constructor
  · intro h
    obtain ⟨p, hp, h⟩ := bind_ok.mp h
    obtain ⟨hfp, rfl⟩ := int32_ok.mp hp
    obtain ⟨o, ho, h⟩ := bind_ok.mp h
    obtain ⟨hfo, rfl⟩ := int32_ok.mp ho
    obtain ⟨q, hq, h⟩ := bind_ok.mp h
    have hl : limit ≠ 0 := by
      intro hl
      subst hl
      exact pagesCountArith_zero hq
    cases (pagesCountArith_ok h0 h1 hl).symm.trans hq
    obtain ⟨p, hp, h⟩ := bind_ok.mp h
    obtain ⟨-, rfl⟩ := int32_ok.mp hp
    obtain ⟨k, hk, h⟩ := bind_ok.mp h
    obtain ⟨-, rfl⟩ := int32_ok.mp hk
    obtain ⟨m, hm, h⟩ := bind_ok.mp h
    obtain ⟨hfm, rfl⟩ := int32_ok.mp hm
    cases h
    rw [Int.mul_comm (page - 1)] at hfm ⊢
    exact ⟨hl, hfp, hfo, hfm, rfl⟩
  · rintro ⟨hl, hfp, hfo, hfm, rfl⟩
    have hcomm : (page - 1) * limit = limit * (page - 1) := Int.mul_comm ..
    rw [int32_ok.mpr ⟨hfp, rfl⟩, ok_bind, int32_ok.mpr ⟨hfo, rfl⟩, ok_bind, pagesCountArith_ok h0 h1 hl,
      ok_bind, ok_bind, hcomm, int32_ok.mpr ⟨hfo, rfl⟩, ok_bind, int32_ok.mpr ⟨hfm, rfl⟩]
    rfl

theorem fileListArith_values (h0 : 0 ≤ fullCount) (h1 : fullCount < 2 ^ 31) {offset pages rest : Int}
    (h : fileListArith page limit fullCount = .ok (offset, pages, rest)) :
    (fileListQuery { page, limit, name := none }).offset = offset ∧ pageInfo page limit count fullCount =
      trailer page pages count rest := by
  obtain ⟨-, hp, ho, hr, he⟩ := (fileListArith_ok h0 h1).mp h
  cases he
  unfold fileListQuery pageInfo pagesCount
  dsimp only
  rw [toInt_eq_iff.mpr hp, Int.mul_comm (page - 1), toInt_eq_iff.mpr ho, toInt_eq_iff.mpr hr]
  exact ⟨rfl, rfl⟩

/-- `page - 1` overflows only where the product does. -/
theorem fits_sub_one (hp : fitsInt page) (hl : limit ≠ 0) (ho : fitsInt (limit * (page - 1))) :
    fitsInt (page - 1) := by
  refine ⟨?_, by have := hp.2; omega⟩
  by_contra hlt
  obtain rfl : page = -2 ^ 31 := by have := hp.1; omega
  have h1 : limit ≤ -1 ∨ 1 ≤ limit := by omega
  have := ho.1
  have := ho.2
  omega

theorem scanListArgs_fits (line : Bytes) : fitsInt (scanListArgs line).1 ∧ fitsInt (scanListArgs line).2 := by
  have hfits : ∀ x, fitsInt (toInt x) := fun x => ⟨Int.le_bmod (by decide), Int.bmod_lt (by decide)⟩
  have hlimit : fitsInt difLimit := ⟨by decide, by decide⟩
  have hpage : fitsInt difPageNum := ⟨by decide, by decide⟩
  unfold scanListArgs
  cases (skipTwoWords line).bind scanUInt with
  | none => exact ⟨hlimit, hpage⟩
  | some r =>
    cases hs : scanUInt r.2 with
    | none => simpa only [hs] using ⟨hfits r.1, hpage⟩
    | some q => simpa only [hs] using ⟨hfits r.1, hfits q.1⟩

end

/-- **Arithmetic.** On 32-bit values `file_list` divides by zero or overflows nowhere exactly if the limit is not 0
and the number of skipped rows, like the number of rows that remain, fits an `int`. -/
theorem paging_safe_iff {page limit fullCount : Int} (hp : fitsInt page) (h0 : 0 ≤ fullCount)
    (h1 : fullCount < 2 ^ 31) :
    (∃ r, fileListArith page limit fullCount = .ok r) ↔
      limit ≠ 0 ∧ fullCount - (2 ^ 31 - 1) ≤ limit * (page - 1) ∧ limit * (page - 1) ≤ 2 ^ 31 - 1 := by
  constructor
  · rintro ⟨r, h⟩
    obtain ⟨hl, -, ho, hr, -⟩ := (fileListArith_ok h0 h1).mp h
    have := ho.2
    have := hr.2
    exact ⟨hl, by omega, by omega⟩
  · rintro ⟨hl, hlow, hhigh⟩
    have ho : fitsInt (limit * (page - 1)) := ⟨by omega, by omega⟩
    exact ⟨_, (fileListArith_ok h0 h1).mpr ⟨hl, fits_sub_one hp hl ho, ho, ⟨by omega, by omega⟩, rfl⟩⟩

/-- `file list 0 1` divides by zero. -/
theorem paging_traps : (∀ P ans w s, processClientCommand P ans w s (ascii "file list 0 1\n") = .error (.fault .divByZero)) ∧
    ¬ ∀ line fullCount, 0 ≤ fullCount → fullCount < 2 ^ 31 →
      ∃ r, fileListArith (scanListArgs line).2 (scanListArgs line).1 fullCount = .ok r := by
  refine ⟨fun P ans w s => ?_, fun hall => ?_⟩
  · have hargs : scanArgs ans (ascii "file list 0 1\n") = .ok (2, ascii "file", ascii "list") := rfl
    have hlist : scanListArgs (ascii "file list 0 1\n") = (0, 1) := by decide
    unfold processClientCommand processClientCommandWith
    rw [hargs, ok_bind]
    dsimp only
    rw [if_pos rfl, if_neg (by decide), if_pos rfl, hlist]
    rfl
  obtain ⟨r, hr⟩ := hall (ascii "file list 0 1\n") 0 (by decide) (by decide)
  exact ((fileListArith_ok (by decide) (by decide)).mp hr).1 (by decide)

/-- The third page of 100 rows, and one whose first row is behind the last `int`. -/
theorem paging_safe_third_page : (∃ r, fileListArith 3 15 100 = .ok r) ∧
    ¬ ∃ r, fileListArith (2 ^ 28) 15 100 = .ok r :=
  ⟨(paging_safe_iff ⟨by decide, by decide⟩ (by decide) (by decide)).mpr (by decide),
    fun h => absurd ((paging_safe_iff ⟨by decide, by decide⟩ (by decide) (by decide)).mp h) (by decide)⟩

/-! ## The rows of the pages -/

def pageShown (P : Platform) (uname : Bytes) (limit page : Nat) (w : World) : List FlItem :=
  ((pageRows P { page, limit, name := none } w).map dbGetFilesDataDb).filter (fileListed uname)

/-- `file_list` returns, has written the rows of the page, and names `pages` pages in the trailer. -/
def ListsPage (P : Platform) (ans : Answers) (w : World) (s : Session) (uname : Bytes) (limit page : Nat)
    (pages : Int) : Prop :=
  ∃ count rest, fileList P ans w s { page, limit, name := none } =
    .ok (writeTexts w s ((pageShown P uname limit page w).map fullStr ++ [trailer page pages count rest]))

structure Covers (w : World) (shown : List FlItem) : Prop where
  ordered : (shown.map (·.id)).Pairwise (· < ·)
  rows : (shown.map (·.id)).Perm (w.files.rows.map (·.id))

section
variable {P : Platform} {ans : Answers} {w : World} {s : Session} {uname : Bytes} {limit n : Nat}

/-! The page count -/

theorem pagesCount_of_le (hle : n ≤ limit) : pagesCount n limit = 1 := by
  have hq : n / limit = 0 ∨ n / limit = 1 := Nat.le_one_iff_eq_zero_or_eq_one.mp (Nat.div_le_of_le_mul (by omega))
  have hgt : ¬ (n : Int) > limit := by omega
  have htdiv : (n : Int).tdiv limit = ((n / limit : Nat) : Int) := rfl
  simp only [pagesCount, htdiv, hgt, false_and, if_false]
  rcases hq with hq | hq <;> simp [hq]

theorem pagesCount_of_lt (hl : 0 < limit) (hlt : limit < n) (hn : n < 2 ^ 31) :
    pagesCount n limit = ((n / limit + if limit ∣ n / limit then 0 else 1 : Nat) : Int) := by
  have hq : 1 ≤ n / limit := (Nat.le_div_iff_mul_le hl).mpr (by omega)
  have hle : n / limit ≤ n := Nat.div_le_self ..
  have htdiv : (n : Int).tdiv limit = ((n / limit : Nat) : Int) := rfl
  have htmod : ((n / limit : Nat) : Int).tmod limit = ((n / limit % limit : Nat) : Int) := rfl
  unfold pagesCount
  dsimp only
  rw [htdiv, if_neg (show ¬ ((n / limit : Nat) : Int) = 0 by omega), htmod]
  have hmod : ((n / limit % limit : Nat) : Int) = 0 ↔ limit ∣ n / limit := by
    rw [Nat.dvd_iff_mod_eq_zero]
    omega
  by_cases hd : limit ∣ n / limit
  · rw [if_neg fun h => h.2 (hmod.mpr hd), if_pos hd]
    simp
  · -- the increment fits, as the quotient is below `n`
    have hlt2 : n / limit < n := Nat.div_lt_self (by omega) (by
      rcases Nat.lt_or_ge 1 limit with h | h
      · exact h
      · exact absurd (show limit ∣ n / limit by rw [show limit = 1 by omega]; exact Nat.one_dvd _) hd)
    rw [if_pos ⟨by omega, fun h => hd (hmod.mp h)⟩, if_neg hd, toInt_of_lt (by omega) (by omega)]
    simp

theorem ceil_div (hl : 0 < limit) : (n + limit - 1) / limit = n / limit + if limit ∣ n then 0 else 1 := by
  have hmod : n % limit < limit := Nat.mod_lt _ hl
  have hn : n + limit - 1 = n % limit + limit - 1 + limit * (n / limit) := by
    have := Nat.mod_add_div n limit
    omega
  rw [hn, Nat.add_mul_div_left _ _ hl]
  by_cases hd : limit ∣ n
  · rw [if_pos hd, Nat.dvd_iff_mod_eq_zero.mp hd, Nat.div_eq_of_lt (by omega)]
    omega
  · rw [if_neg hd]
    have hpos : n % limit ≠ 0 := fun h => hd (Nat.dvd_iff_mod_eq_zero.mpr h)
    have hone : (n % limit + limit - 1) / limit = 1 := by
      rw [show n % limit + limit - 1 = n % limit - 1 + limit by omega, Nat.add_div_right _ hl,
        Nat.div_eq_of_lt (by omega)]
    omega

theorem pagesCount_eq_iff (hl : 0 < limit) (hn : n < 2 ^ 31) :
    pagesCount n limit = ((max 1 ((n + limit - 1) / limit) : Nat) : Int) ↔ n ≤ limit ∨
      (limit ∣ n ↔ limit ∣ n / limit) := by
  rcases Nat.lt_or_ge limit n with hlt | hle
  · have hq : 1 ≤ n / limit := (Nat.le_div_iff_mul_le hl).mpr (by omega)
    rw [pagesCount_of_lt hl hlt hn, ceil_div hl, Nat.max_eq_right (by omega), Int.natCast_inj]
    have hnle : ¬ n ≤ limit := by omega
    by_cases h1 : limit ∣ n <;> by_cases h2 : limit ∣ n / limit <;> simp [h1, h2, hnle]
  · have hceil : (n + limit - 1) / limit ≤ 1 :=
        Nat.lt_succ_iff.mp (Nat.div_lt_of_lt_mul (show n + limit - 1 < limit * 2 by omega))
    rw [pagesCount_of_le hle, Nat.max_eq_left hceil]
    simp [hle]

/-! The pages -/

theorem take_pages {α : Type} (l : List α) (m : Nat) : ∀ n,
    (List.range n).flatMap (fun k => (l.drop (m * k)).take m) = l.take (m * n)
  | 0 => by simp
  | n + 1 => by
    rw [List.range_succ, List.flatMap_append, take_pages l m n, Nat.mul_succ, List.take_add]
    simp

theorem joined_rows (howner : ∀ r ∈ w.files.rows, ∃ u ∈ w.users.rows, u.id = r.userId) :
    (joined w).map (·.1) = w.files.rows := by
  have hone : ∀ r ∈ w.files.rows, ((w.users.rows.filter (·.id == r.userId)).map (r, ·)).map (·.1) = [r] := by
    intro r hr
    obtain ⟨u, hu, hid⟩ := howner r hr
    rw [← hid, filter_key w.users.ids hu]
    rfl
  unfold joined
  rw [List.map_flatMap]
  calc w.files.rows.flatMap (fun r => ((w.users.rows.filter (·.id == r.userId)).map (r, ·)).map (·.1))
      = w.files.rows.flatMap (fun r => [r]) := List.flatMap_congr hone
    _ = w.files.rows := by simp

theorem fileTable_length (t : FileTable) : t.rows.length < 2 ^ 31 := by
  have hsub : (t.rows.map (·.id)).toFinset ⊆ Finset.Icc 1 (2 ^ 31 - 1) := by
    intro x hx
    obtain ⟨r, hr, rfl⟩ := List.mem_map.mp (List.mem_toFinset.mp hx)
    have := t.idRange r hr
    exact Finset.mem_Icc.mpr ⟨by omega, by omega⟩
  have hcard := Finset.card_le_card hsub
  rw [List.toFinset_card_of_nodup t.ids, List.length_map, Int.card_Icc] at hcard
  omega

theorem joined_nodup (howner : ∀ r ∈ w.files.rows, ∃ u ∈ w.users.rows, u.id = r.userId) :
    ((joined w).map (·.1.id)).Nodup := by
  have hmap : (joined w).map (·.1.id) = w.files.rows.map (·.id) := by
    rw [← joined_rows howner, List.map_map]
    rfl
  rw [hmap]
  exact w.files.ids

theorem covers_sorted (howner : ∀ r ∈ w.files.rows, ∃ u ∈ w.users.rows, u.id = r.userId) :
    Covers w ((orderById (joined w)).map dbGetFilesDataDb) := by
  have hperm : (orderById (joined w)).Perm (joined w) := List.perm_insertionSort ..
  have hids : ((orderById (joined w)).map dbGetFilesDataDb).map (·.id) = (orderById (joined w)).map (·.1.id) := by
    rw [List.map_map]
    rfl
  have hsorted : (orderById (joined w)).Pairwise fun a b => a.1.id ≤ b.1.id := by
    have : Std.Total fun a b : FileRow × UserRow => a.1.id ≤ b.1.id := ⟨fun a b => Int.le_total ..⟩
    have : IsTrans (FileRow × UserRow) fun a b => a.1.id ≤ b.1.id := ⟨fun _ _ _ => Int.le_trans⟩
    exact List.pairwise_insertionSort _ _
  have hids' : ((orderById (joined w)).map (·.1.id)).Nodup := (hperm.map _).nodup_iff.mpr (joined_nodup howner)
  have hnodup : (orderById (joined w)).Pairwise fun a b => a.1.id ≠ b.1.id := List.pairwise_map.mp hids'
  refine ⟨?_, ?_⟩
  · rw [hids, List.pairwise_map]
    exact (hsorted.and hnodup).imp fun h => Int.lt_iff_le_and_ne.mpr h
  · rw [hids, ← joined_rows howner, List.map_map]
    exact hperm.map _

theorem pageShown_eq (hvis : ∀ r ∈ joined w, fileListed uname (dbGetFilesDataDb r)) {k : Nat}
    (hk : limit * k < 2 ^ 31) :
    pageShown P uname limit (k + 1) w =
      ((((orderById (joined w)).map dbGetFilesDataDb).drop (limit * k)).take limit) := by
  have hpage : toInt (((k + 1 : Nat) : Int) - 1) = k ∨ limit = 0 := by
    rcases Nat.eq_zero_or_pos limit with h | h
    · exact .inr h
    · have : k ≤ limit * k := Nat.le_mul_of_pos_left k h
      exact .inl ((toInt_of_lt (by omega) (by omega)).trans (by omega))
  have hoffset : (toInt (limit * toInt (((k + 1 : Nat) : Int) - 1))).toNat = limit * k := by
    rcases hpage with h | h
    · rw [h, show (limit : Int) * k = ((limit * k : Nat) : Int) by simp, toInt_of_lt (by omega) (by omega)]
      rfl
    · subst h
      simp [toInt, wrap]
  have hrows : pageRows P { page := ((k + 1 : Nat) : Int), limit, name := none } w =
      ((orderById (joined w)).drop (limit * k)).take limit := by
    unfold pageRows limitOffset
    dsimp only
    rw [hoffset, if_neg (by omega)]
    rfl
  unfold pageShown
  rw [hrows, List.filter_eq_self.mpr, List.map_take, List.map_drop]
  intro it hit
  obtain ⟨r, hr, rfl⟩ := List.mem_map.mp hit
  exact hvis r ((List.perm_insertionSort ..).mem_iff.mp (List.mem_of_mem_drop (List.mem_of_mem_take hr)))

theorem length_sorted (howner : ∀ r ∈ w.files.rows, ∃ u ∈ w.users.rows, u.id = r.userId) :
    ((orderById (joined w)).map dbGetFilesDataDb).length = w.files.rows.length := by
  rw [List.length_map, ← joined_rows howner, List.length_map]
  exact (List.perm_insertionSort ..).length_eq

/-- The last page that is needed begins within the table. -/
theorem ceil_bounds (hl : 0 < limit) : n ≤ limit * max 1 ((n + limit - 1) / limit) ∧
    ∀ k < max 1 ((n + limit - 1) / limit), limit * k ≤ n := by
  have hdiv := Nat.div_add_mod n limit
  have hmod : n % limit < limit := Nat.mod_lt _ hl
  rw [ceil_div hl]
  constructor
  · refine Nat.le_trans ?_ (Nat.mul_le_mul_left limit (Nat.le_max_right 1 _))
    rw [Nat.mul_add]
    split
    · rename_i hd
      rw [Nat.dvd_iff_mod_eq_zero.mp hd] at hdiv
      omega
    · omega
  · intro k hk
    have hle : k ≤ n / limit := by
      generalize n / limit = q at *
      split at hk <;> omega
    exact Nat.le_trans (Nat.mul_le_mul_left limit hle) (Nat.mul_div_le n limit)

theorem pages_sorted (hl : 0 < limit) (howner : ∀ r ∈ w.files.rows, ∃ u ∈ w.users.rows, u.id = r.userId)
    (hvis : ∀ r ∈ joined w, fileListed uname (dbGetFilesDataDb r)) :
    (List.range (max 1 ((w.files.rows.length + limit - 1) / limit))).flatMap (fun k => pageShown P uname limit (k + 1) w) =
      (orderById (joined w)).map dbGetFilesDataDb := by
  obtain ⟨hall, hbegin⟩ := ceil_bounds (n := w.files.rows.length) hl
  have hn := fileTable_length w.files
  generalize max 1 ((w.files.rows.length + limit - 1) / limit) = pages at *
  calc (List.range pages).flatMap (fun k => pageShown P uname limit (k + 1) w)
      = (List.range pages).flatMap
          (fun k => (((orderById (joined w)).map dbGetFilesDataDb).drop (limit * k)).take limit) :=
        List.flatMap_congr fun k hk => pageShown_eq hvis (by have := hbegin k (List.mem_range.mp hk); omega)
    _ = ((orderById (joined w)).map dbGetFilesDataDb).take (limit * pages) := take_pages ..
    _ = (orderById (joined w)).map dbGetFilesDataDb :=
      List.take_of_length_le (by rw [length_sorted howner]; exact hall)

theorem listsPage_iff (ha : ans.answered = true) (hu : s.uname = some uname) (hl : 0 < limit) {page : Nat} :
    ListsPage P ans w s uname limit page (pagesCount w.files.rows.length limit) ↔
      ∀ it ∈ pageShown P uname limit page w, (itemH it).length < 256 := by
  have hn : toInt w.files.rows.length = w.files.rows.length := by
    have := fileTable_length w.files
    exact toInt_of_lt (by omega) (by omega)
  have hcounted : countedRows P { page, limit, name := none } w = w.files.rows := rfl
  unfold ListsPage fileList fileListWith
  rw [if_neg (show ¬ (limit : Int) = 0 by omega), tables_dbGetFilesData, ok_bind, dbGetFilesData_answered ha,
    hcounted, hn]
  by_cases he : (pageRows P { page, limit, name := none } w).map dbGetFilesDataDb = []
  · have hshown : pageShown P uname limit page w = [] := by
      unfold pageShown
      rw [he]
      rfl
    simp only [he, if_true, hshown]
    exact ⟨fun _ => by simp, fun _ => ⟨_, _, rfl⟩⟩
  · simp only [he, if_false, hu, deref, ok_bind]
    have hall : ((((pageRows P { page, limit, name := none } w).map dbGetFilesDataDb).filter (fileListed uname)).all
        fun it => (itemH it).length < 256) = true ↔
          ∀ it ∈ pageShown P uname limit page w, (itemH it).length < 256 := by
      simp only [List.all_eq_true, decide_eq_true_eq]
      rfl
    rw [← hall]
    split
    · rename_i h
      exact ⟨fun _ => h, fun _ => ⟨_, _, rfl⟩⟩
    · rename_i h
      refine ⟨?_, fun h' => absurd h' h⟩
      rintro ⟨_, _, he⟩
      cases he

end

/-- **Pages.** For a table whose rows have owners and are visible, `file_list` names the right number of pages, writes
them all, and shows in them every row once, in order, exactly if all rows fit one page or the number of rows and that
of the full pages are both divisible by the limit or both not, and the headers of the rows fit `item_h`. -/
theorem pages_cover_iff {P : Platform} {ans : Answers} {w : World} {s : Session} {uname : Bytes} {limit : Nat}
    (ha : ans.answered = true) (hu : s.uname = some uname) (hl : 0 < limit)
    (howner : ∀ r ∈ w.files.rows, ∃ u ∈ w.users.rows, u.id = r.userId)
    (hvis : ∀ r ∈ joined w, fileListed uname (dbGetFilesDataDb r)) :
    (∃ pages : Nat, pagesCount w.files.rows.length limit = pages ∧
    pages = max 1 ((w.files.rows.length + limit - 1) / limit) ∧
      (∀ k < pages, ListsPage P ans w s uname limit (k + 1) pages) ∧
      Covers w ((List.range pages).flatMap fun k => pageShown P uname limit (k + 1) w)) ↔
    (w.files.rows.length ≤ limit ∨ (limit ∣ w.files.rows.length ↔ limit ∣ w.files.rows.length / limit)) ∧
      ∀ r ∈ joined w, (itemH (dbGetFilesDataDb r)).length < 256 := by
  have hcount := pagesCount_eq_iff hl (fileTable_length w.files)
  have hpages := pages_sorted (P := P) hl howner hvis
  have hmem : ∀ r, r ∈ joined w ↔ r ∈ orderById (joined w) := fun r => (List.perm_insertionSort ..).mem_iff.symm
  constructor
  · rintro ⟨pages, hc, rfl, hlist, -⟩
    refine ⟨hcount.mp hc, fun r hr => ?_⟩
    have hshown := List.mem_map_of_mem (f := dbGetFilesDataDb) ((hmem r).mp hr)
    rw [← hpages] at hshown
    obtain ⟨k, hk, hit⟩ := List.mem_flatMap.mp hshown
    have := hlist k (List.mem_range.mp hk)
    rw [← hc] at this
    exact (listsPage_iff ha hu hl).mp this _ hit
  · rintro ⟨hdiv, hfit⟩
    refine ⟨_, hcount.mpr hdiv, rfl, fun k hk => ?_, by rw [hpages]; exact covers_sorted howner⟩
    rw [← hcount.mpr hdiv, listsPage_iff ha hu hl]
    intro it hit
    have hshown : it ∈ (orderById (joined w)).map dbGetFilesDataDb := by
      rw [← hpages]
      exact List.mem_flatMap.mpr ⟨k, List.mem_range.mpr hk, hit⟩
    obtain ⟨r, hr, rfl⟩ := List.mem_map.mp hshown
    exact hfit r ((hmem r).mpr hr)

def fiveFiles : World :=
  .start (fun _ => none) .bob
    { rows := (List.range 5).map fun k =>
        { id := k + 1, userId := 1, name := ascii "a", size := 1, description := [], permissions := 1, hash := 0 }
      ids := by decide, idRange := by decide }

theorem fiveFiles_rows : (∀ r ∈ fiveFiles.files.rows, ∃ u ∈ fiveFiles.users.rows, u.id = r.userId) ∧
    ∀ r ∈ joined fiveFiles, fileListed (ascii "bob") (dbGetFilesDataDb r) := by
  decide +kernel

/-- Two rows to a page, two pages are named, and the fifth row is on neither. -/
theorem pages_miss_row : pagesCount fiveFiles.files.rows.length (2 : Nat) = (2 : Nat) ∧
    (∀ it ∈ (List.range 2).flatMap (fun k => pageShown default (ascii "bob") 2 (k + 1) fiveFiles), it.id ≠ 5) ∧
    ¬ ∃ pages : Nat, pagesCount fiveFiles.files.rows.length (2 : Nat) = pages ∧
      pages = max 1 ((fiveFiles.files.rows.length + 2 - 1) / 2) ∧
      (∀ k < pages, ListsPage default {} fiveFiles (.waiting 4 (ascii "bob") 1) (ascii "bob") 2 (k + 1) pages) ∧
      Covers fiveFiles ((List.range pages).flatMap fun k => pageShown default (ascii "bob") 2 (k + 1) fiveFiles) := by
  refine ⟨by decide, by decide +kernel, ?_⟩
  rintro ⟨pages, hc, hmax, -⟩
  rw [show pagesCount fiveFiles.files.rows.length (2 : Nat) = (2 : Nat) by decide, Int.natCast_inj] at hc
  subst hc
  exact absurd hmax (by decide)

theorem pages_cover_iff_default :
    (∃ pages : Nat, pagesCount fiveFiles.files.rows.length (15 : Nat) = pages ∧
      pages = max 1 ((fiveFiles.files.rows.length + 15 - 1) / 15) ∧
      (∀ k < pages, ListsPage default {} fiveFiles (.waiting 4 (ascii "bob") 1) (ascii "bob") 15 (k + 1) pages) ∧
      Covers fiveFiles ((List.range pages).flatMap fun k => pageShown default (ascii "bob") 15 (k + 1) fiveFiles)) ↔
    (fiveFiles.files.rows.length ≤ 15 ∨ (15 ∣ fiveFiles.files.rows.length ↔ 15 ∣ fiveFiles.files.rows.length / 15)) ∧
      ∀ r ∈ joined fiveFiles, (itemH (dbGetFilesDataDb r)).length < 256 :=
  pages_cover_iff rfl rfl (by decide) fiveFiles_rows.1 fiveFiles_rows.2

end BbsServer
