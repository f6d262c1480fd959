import BbsServer.Lib.Block
import BbsServer.MemorySound
import BbsServer.PagingSound

/-!
# The text of a listing

`file_list` from the answer of the database on, with `item_h`, `full_str` and `page_info` as blocks of memory. The
header of a row is formatted into 256 bytes, which a name and an owner that can be stored do not always fit
(`listing_framed_iff`).
-/

namespace BbsServer

open CStr

/-- Memory with what happens to be in it. -/
def block (fresh : Nat → UInt8) (n : Nat) : Bytes := (List.range n).map fresh

def malloc (fresh : Nat → UInt8) (n : Nat) : Option Bytes := if n < 2 ^ 63 then some (block fresh n) else none

def replaceNl (dLen : Int) (description : Bytes) : Bytes :=
  (description.take dLen.toNat).map (fun c => if c = nl then 7 else c) ++ description.drop dLen.toNat

/-- The round of `file_list` for a listed row: what it writes. `none` is an access outside a buffer or an overflow. -/
def itemWrite (fresh : Nat → UInt8) (it : FlItem) : Option Bytes := do
  let item ← Block.puts (block fresh 256) (itemH it)
  let hLen := toInt (itemH it).length
  let dLen := toInt it.description.length
  let description := replaceNl dLen it.description
  let fLen ← (int32 (hLen + dLen)).toOption
  let fLen ← (int32 (fLen + 3)).toOption
  let full ← malloc fresh (sizeT fLen)
  let full ← Block.puts full (cstr item ++ ascii " " ++ description ++ [nl])
  let n ← (int32 (fLen - 1)).toOption
  if sizeT n ≤ full.length then some (full.take (sizeT n)) else none

def itemWrites (fresh : Nat → UInt8) (uname : Bytes) : List FlItem → Option (List Bytes)
  | [] => some []
  | it :: items =>
    if !fileListed uname it then itemWrites fresh uname items
    else do
      let line ← itemWrite fresh it
      let lines ← itemWrites fresh uname items
      some (line :: lines)

def pageWrite (fresh : Nat → UInt8) (page pages count rest : Int) : Option Bytes :=
  (Block.puts (block fresh 256) (trailer page pages count rest)).map cstr

def fileListWrites (fresh : Nat → UInt8) (uname : Bytes) (page limit : Int) (items : List FlItem)
    (count fullCount : Int) : Option (List Bytes) := do
  let (_, pages, rest) ← (fileListArith page limit fullCount).toOption
  let info ← pageWrite fresh page pages count rest
  let lines ← itemWrites fresh uname items
  some (lines ++ [info])

/-- A row that the server can have stored. -/
structure Storable (nameMax : Nat) (it : FlItem) : Prop where
  name : 1 ≤ it.name.length ∧ it.name.length ≤ nameMax
  nameText : nl ∉ it.name ∧ 0 ∉ it.name
  owner : 1 ≤ it.owner.length ∧ it.owner.length ≤ unameLen - 1
  ownerText : (∀ c ∈ it.owner, isspace c = false) ∧ 0 ∉ it.owner
  description : 0 ∉ it.description

def SingleLine (l : Bytes) : Prop := ∃ t, l = t ++ [nl] ∧ nl ∉ t

/-- One line for each listed row, in order, and the page line; and no access outside a buffer. -/
structure FramedListing (uname : Bytes) (page limit : Int) (items : List FlItem) (count fullCount : Int) : Prop where
  writes : ∀ fresh, fileListWrites fresh uname page limit items count fullCount =
    some ((items.filter (fileListed uname)).map fullStr ++ [pageInfo page limit count fullCount])
  lines : ∀ it ∈ items, SingleLine (fullStr it)
  last : SingleLine (pageInfo page limit count fullCount) ∧
    ascii ":END: PAGE " <+: pageInfo page limit count fullCount

def headerLength (it : FlItem) : Nat := it.name.length + (decimal it.size).length + it.owner.length + 4

/-- The row's line fits `item_h`, and its length an `int`. -/
def RowFits (it : FlItem) : Prop := headerLength it < 256 ∧ headerLength it + it.description.length + 3 < 2 ^ 31

def PageFits (page limit fullCount : Int) : Prop :=
  limit ≠ 0 ∧ fitsInt (page - 1) ∧ fitsInt (limit * (page - 1)) ∧ fitsInt (fullCount - limit * (page - 1))

section
variable {fresh : Nat → UInt8} {it : FlItem} {items : List FlItem} {uname : Bytes} {page limit count fullCount : Int}
  {nameMax : Nat}

theorem length_block (n : Nat) : (block fresh n).length = n := by
  rw [block, List.length_map, List.length_range]

theorem puts_block (n : Nat) (t : Bytes) : Block.puts (block fresh n) t =
    if t.length < n then some (t ++ 0 :: (block fresh n).drop (t.length + 1)) else none := by
  rw [Block.puts_eq, length_block]

theorem length_itemH (it : FlItem) : (itemH it).length = headerLength it := by
  unfold itemH headerLength
  simp only [List.length_append, show (ascii "[").length = 1 from rfl, show (ascii "] ").length = 2 from rfl,
    show (ascii " ").length = 1 from rfl]
  omega

theorem Storable.header (h : Storable nameMax it) : 0 ∉ itemH it ∧ nl ∉ itemH it := by
  have hdec : ∀ c, isdigit c = false → c ∉ decimal it.size := fun c hc hm => by
    rw [decimal_digits it.size c hm] at hc
    cases hc
  have howner : nl ∉ it.owner := fun hm => absurd (h.ownerText.1 nl hm) (by decide)
  have htext : (0 ∉ ascii "[" ∧ 0 ∉ ascii "] " ∧ 0 ∉ ascii " ") ∧ nl ∉ ascii "[" ∧ nl ∉ ascii "] " ∧
    nl ∉ ascii " " := by decide
  unfold itemH
  simp only [List.mem_append, not_or]
  exact ⟨⟨⟨⟨⟨⟨htext.1.1, h.nameText.2⟩, htext.1.2.1⟩, hdec 0 rfl⟩, htext.1.2.2⟩, h.ownerText.2⟩,
    ⟨⟨⟨⟨htext.2.1, h.nameText.1⟩, htext.2.2.1⟩, hdec nl rfl⟩, htext.2.2.2⟩, howner⟩

theorem Storable.line (h : Storable nameMax it) : SingleLine (fullStr it) := by
  refine ⟨_, rfl, ?_⟩
  simp only [List.mem_append, List.mem_map, not_or, not_exists, not_and]
  refine ⟨⟨h.header.2, by decide⟩, fun c _ => ?_⟩
  split
  · decide
  · assumption

theorem int32_some {x : Int} (h : fitsInt x) : (int32 x).toOption = some x := by
  rw [int32_ok.mpr ⟨h, rfl⟩]
  rfl

theorem int32_none {x : Int} (h : ¬ fitsInt x) : (int32 x).toOption = none := by
  rw [int32, if_neg (mt toInt_eq_iff.mp h)]
  rfl

theorem toInt_le (n : Nat) : toInt n ≤ n := by
  unfold toInt wrap
  rw [Int.bmod_def]
  split <;> omega

theorem length_replaceNl (n : Int) (d : Bytes) : (replaceNl n d).length = d.length := by
  unfold replaceNl
  rw [List.length_append, List.length_map, ← List.length_append, List.take_append_drop]

theorem replaceNl_whole (d : Bytes) : replaceNl d.length d = d.map fun c => if c = nl then 7 else c := by
  rw [replaceNl, Int.toNat_natCast, List.take_length, List.drop_length, List.append_nil]

theorem itemWrite_fits (h0 : 0 ∉ itemH it) (h : RowFits it) : itemWrite fresh it = some (fullStr it) := by
  obtain ⟨hh, hd⟩ := h
  rw [← length_itemH] at hh hd
  have hitem : Block.puts (block fresh 256) (itemH it) =
    some (itemH it ++ 0 :: (block fresh 256).drop ((itemH it).length + 1)) := by
    rw [puts_block, if_pos hh]
  have hcstr : cstr (itemH it ++ 0 :: (block fresh 256).drop ((itemH it).length + 1)) = itemH it := by
    rw [cstr_append_nul, cstr_of_nul_not_mem h0]
  have hhLen : toInt (itemH it).length = (itemH it).length := toInt_of_lt (by omega) (by omega)
  have hdLen : toInt it.description.length = it.description.length := toInt_of_lt (by omega) (by omega)
  have htext : itemH it ++ ascii " " ++ replaceNl it.description.length it.description ++ [nl] = fullStr it := by
    rw [replaceNl_whole, fullStr]
  have hlength : (fullStr it).length = (itemH it).length + it.description.length + 2 := by
    rw [← htext]
    simp only [List.length_append, length_replaceNl, show (ascii " ").length = 1 from rfl, List.length_singleton]
    omega
  have hsize : sizeT ((itemH it).length + it.description.length + 3 : Int) =
    (itemH it).length + it.description.length + 3 := by
    rw [show ((itemH it).length + it.description.length + 3 : Int) =
        ((itemH it).length + it.description.length + 3 : Nat) by omega]
    exact sizeT_of_lt (by omega)
  have hmalloc : malloc fresh ((itemH it).length + it.description.length + 3) =
      some (block fresh ((itemH it).length + it.description.length + 3)) := if_pos (by omega)
  have hfull : Block.puts (block fresh ((itemH it).length + it.description.length + 3)) (fullStr it) =
    some (fullStr it ++ [0]) := by
    rw [puts_block, if_pos (by omega), List.drop_of_length_le (by rw [length_block]; omega)]
  have hn : sizeT ((itemH it).length + it.description.length + 3 - 1 : Int) = (fullStr it).length := by
    rw [hlength, show ((itemH it).length + it.description.length + 3 - 1 : Int) =
      ((itemH it).length + it.description.length + 2 : Nat) by omega]
    exact sizeT_of_lt (by omega)
  have h1 := int32_some (x := (itemH it).length + it.description.length) ⟨by omega, by omega⟩
  have h2 := int32_some (x := (itemH it).length + it.description.length + 3) ⟨by omega, by omega⟩
  have h3 := int32_some (x := (itemH it).length + it.description.length + 3 - 1) ⟨by omega, by omega⟩
  unfold itemWrite
  rw [hitem, Option.bind_eq_bind, Option.bind_some]
  dsimp only
  rw [hhLen, hdLen, hcstr, htext, h1, Option.bind_eq_bind, Option.bind_some, h2, Option.bind_some, hsize, hmalloc,
    Option.bind_some, hfull, Option.bind_some, h3, Option.bind_some, hn, if_pos (by simp), List.take_left]

theorem itemWrite_none (h0 : 0 ∉ itemH it) (h : ¬ RowFits it) : itemWrite fresh it = none := by
  rw [RowFits, ← length_itemH] at h
  unfold itemWrite
  by_cases hh : (itemH it).length < 256
  swap
  · rw [puts_block, if_neg hh]
    rfl
  have hlong : ¬ (itemH it).length + it.description.length + 3 < 2 ^ 31 := fun hd => h ⟨hh, hd⟩
  have hhLen : toInt (itemH it).length = (itemH it).length := toInt_of_lt (by omega) (by omega)
  have hle := toInt_le it.description.length
  rw [puts_block, if_pos hh, Option.bind_eq_bind, Option.bind_some]
  dsimp only
  rw [hhLen]
  generalize toInt it.description.length = x at hle
  by_cases h1 : fitsInt ((itemH it).length + x)
  swap
  · rw [int32_none h1]
    rfl
  rw [int32_some h1, Option.bind_eq_bind, Option.bind_some]
  by_cases h2 : fitsInt ((itemH it).length + x + 3)
  swap
  · rw [int32_none h2]
    rfl
  rw [int32_some h2, Option.bind_some]
  have hhigh := h2.2
  by_cases hneg : (itemH it).length + x + 3 < 0
  · -- a negative length is a huge `size_t`
    have hhuge : ¬ sizeT ((itemH it).length + x + 3) < 2 ^ 63 := by
      have := h2.1
      unfold sizeT
      omega
    rw [malloc, if_neg hhuge]
    rfl
  · have hsize : sizeT ((itemH it).length + x + 3) = ((itemH it).length + x + 3).toNat := by
      unfold sizeT
      omega
    have hfull : ¬ (cstr (itemH it ++ 0 :: (block fresh 256).drop ((itemH it).length + 1)) ++ ascii " " ++
        replaceNl x it.description ++ [nl]).length < sizeT ((itemH it).length + x + 3) := by
      rw [cstr_append_nul, cstr_of_nul_not_mem h0, hsize]
      simp only [List.length_append, length_replaceNl, List.length_singleton, show (ascii " ").length = 1 from rfl]
      omega
    rw [malloc, if_pos (by rw [hsize]; omega), Option.bind_some, puts_block, if_neg hfull]
    rfl

theorem itemWrites_fits (h0 : ∀ it ∈ items, 0 ∉ itemH it) (h : ∀ it ∈ items, fileListed uname it → RowFits it) :
    itemWrites fresh uname items = some ((items.filter (fileListed uname)).map fullStr) := by
  induction items with
  | nil => rfl
  | cons it items ih =>
    have ih := ih (fun it hit => h0 it (List.mem_cons_of_mem _ hit)) (fun it hit => h it (List.mem_cons_of_mem _ hit))
    unfold itemWrites
    by_cases hl : fileListed uname it
    · rw [if_neg (by simp [hl]), itemWrite_fits (h0 it (List.mem_cons_self ..)) (h it (List.mem_cons_self ..) hl),
        List.filter_cons_of_pos hl, ih]
      rfl
    · rw [if_pos (by simp [hl]), List.filter_cons_of_neg hl, ih]

theorem rowFits_of_writes {lines : List Bytes} (h0 : ∀ it ∈ items, 0 ∉ itemH it)
    (h : itemWrites fresh uname items = some lines) : ∀ it ∈ items, fileListed uname it → RowFits it := by
  induction items generalizing lines with
  | nil => exact nofun
  | cons it items ih =>
    have htail := fun it hit => h0 it (List.mem_cons_of_mem _ hit)
    unfold itemWrites at h
    by_cases hl : fileListed uname it
    · rw [if_neg (by simp [hl])] at h
      obtain ⟨line, hline, h⟩ := Option.bind_eq_some_iff.mp h
      obtain ⟨rest, hrest, -⟩ := Option.bind_eq_some_iff.mp h
      intro x hx hlx
      rcases List.mem_cons.mp hx with rfl | hx
      · by_contra hfit
        rw [itemWrite_none (h0 x (List.mem_cons_self ..)) hfit] at hline
        cases hline
      · exact ih htail hrest x hx hlx
    · rw [if_pos (by simp [hl])] at h
      intro x hx hlx
      rcases List.mem_cons.mp hx with rfl | hx
      · exact absurd hlx hl
      · exact ih htail h x hx hlx

/-! ## The last line -/

theorem nul_not_mem_trailer (page pages count rest : Int) : 0 ∉ trailer page pages count rest := by
  have hdec : ∀ n, 0 ∉ decimal n := not_mem_decimal (by decide)
  have hint : ∀ x, 0 ∉ decimalInt x := not_mem_decimalInt (by decide) (by decide)
  have htext : 0 ∉ ascii ":END: PAGE " ∧ 0 ∉ ascii "/" ∧ 0 ∉ ascii " COUNT: " ∧ 0 ∉ [nl] := by decide
  unfold trailer
  simp only [List.mem_append, hdec, hint, htext, or_self, not_false_eq_true]

theorem length_trailer_lt {pages rest : Int} (h1 : fitsInt pages) (h2 : fitsInt count) (h3 : fitsInt rest) :
    (trailer page pages count rest).length < 256 := by
  have hint : ∀ {x : Int}, fitsInt x → (decimalInt x).length ≤ 11 := fun {x} h =>
    length_decimalInt_le (k := 10) (by decide) (by have := h.1; have := h.2; omega)
  have hpage : (decimal (page % 2 ^ 32).toNat).length ≤ 10 := length_decimal_le (by decide) (by omega)
  have := hint h1
  have := hint h2
  have := hint h3
  unfold trailer
  simp only [List.length_append, List.length_singleton, show (ascii ":END: PAGE ").length = 11 from rfl,
    show (ascii "/").length = 1 from rfl, show (ascii " COUNT: ").length = 8 from rfl]
  omega

theorem fitsInt_pagesCount (h0 : 0 ≤ fullCount) (h1 : fullCount < 2 ^ 31) : fitsInt (pagesCount fullCount limit) := by
  have hq : fitsInt (if fullCount.tdiv limit = 0 then 1 else fullCount.tdiv limit) := by
    split
    · exact ⟨by decide, by decide⟩
    · exact fitsInt_tdiv h0 h1
  unfold pagesCount
  dsimp only
  generalize (if fullCount.tdiv limit = 0 then 1 else fullCount.tdiv limit) = q at hq
  split
  · exact ⟨Int.le_bmod (by decide), Int.bmod_lt (by decide)⟩
  · exact hq

theorem pageWrite_eq {pages rest : Int} (h1 : fitsInt pages) (h2 : fitsInt count) (h3 : fitsInt rest) :
    pageWrite fresh page pages count rest = some (trailer page pages count rest) := by
  rw [pageWrite, puts_block, if_pos (length_trailer_lt h1 h2 h3), Option.map_some, cstr_append_nul,
    cstr_of_nul_not_mem <| nul_not_mem_trailer page pages count rest]

/-! ## The whole listing -/

theorem fileListWrites_fits (hitems : ∀ it ∈ items, 0 ∉ itemH it) (hc : fitsInt count) (h0 : 0 ≤ fullCount)
    (h1 : fullCount < 2 ^ 31)
    (hp : PageFits page limit fullCount) (h : ∀ it ∈ items, fileListed uname it → RowFits it) :
    fileListWrites fresh uname page limit items count fullCount =
      some ((items.filter (fileListed uname)).map fullStr ++ [pageInfo page limit count fullCount]) := by
  obtain ⟨hl, hsub, hskip, hrest⟩ := hp
  have harith := (fileListArith_ok h0 h1).mpr ⟨hl, hsub, hskip, hrest, rfl⟩
  have hinfo : pageInfo page limit count fullCount = trailer page _ count _ := (fileListArith_values h0 h1 harith).2
  unfold fileListWrites
  rw [harith, hinfo, Except.toOption, Option.bind_eq_bind, Option.bind_some]
  dsimp only
  rw [pageWrite_eq (fitsInt_pagesCount h0 h1) hc hrest, Option.bind_eq_bind, Option.bind_some,
    itemWrites_fits hitems h, Option.bind_eq_bind, Option.bind_some]

theorem fits_of_writes {lines : List Bytes} (hitems : ∀ it ∈ items, 0 ∉ itemH it) (h0 : 0 ≤ fullCount)
    (h1 : fullCount < 2 ^ 31) (h : fileListWrites fresh uname page limit items count fullCount = some lines) :
    PageFits page limit fullCount ∧ ∀ it ∈ items, fileListed uname it → RowFits it := by
  obtain ⟨r, harith, h⟩ := Option.bind_eq_some_iff.mp h
  obtain ⟨info, -, h⟩ := Option.bind_eq_some_iff.mp h
  obtain ⟨rows, hrows, -⟩ := Option.bind_eq_some_iff.mp h
  have hok : fileListArith page limit fullCount = .ok r := by
    cases hx : fileListArith page limit fullCount with
    | ok x =>
      rw [hx] at harith
      exact congrArg Except.ok (Option.some.inj harith)
    | error e =>
      rw [hx] at harith
      cases harith
  obtain ⟨hl, hsub, hskip, hrest, -⟩ := (fileListArith_ok h0 h1).mp hok
  exact ⟨⟨hl, hsub, hskip, hrest⟩, rowFits_of_writes hitems hrows⟩

/-- The pieces are what `file_list` writes, one after the other. -/
theorem fileList_writes {P : Platform} {ans : Answers} {w : World} {s : Session} {args : FileListArgs}
    {lines : List Bytes}
    {answer : List FlItem × Int × Int} (ha : answer = dbGetFilesData P ans [] w (fileListQuery args))
    (hu : s.uname = some uname)
    (hitems : ∀ it ∈ answer.1, 0 ∉ itemH it) (hc : fitsInt answer.2.1) (h0 : 0 ≤ answer.2.2)
    (h1 : answer.2.2 < 2 ^ 31)
    (h : fileListWrites fresh uname args.page args.limit answer.1 answer.2.1 answer.2.2 = some lines) :
    fileList P ans w s args = .ok (writeTexts w s lines) := by
  obtain ⟨hp, hfit⟩ := fits_of_writes hitems h0 h1 h
  cases h.symm.trans (fileListWrites_fits hitems hc h0 h1 hp hfit)
  unfold fileList fileListWith
  rw [tables_dbGetFilesData, ok_bind, if_neg hp.1, ← ha]
  by_cases hnone : answer.1 = []
  · rw [if_pos hnone, hnone]
    rfl
  · have hall : (answer.1.filter (fileListed uname)).all (fun it => (itemH it).length < 256) = true := by
      rw [List.all_eq_true]
      intro it hit
      obtain ⟨hit, hl⟩ := List.mem_filter.mp hit
      rw [length_itemH]
      exact decide_eq_true (hfit it hit hl).1
    rw [if_neg hnone, hu, deref, ok_bind, if_pos hall, fileListTexts]

end

/-- **Framing of listings.** -/
theorem listing_framed_iff {nameMax : Nat} {uname : Bytes} {page limit count fullCount : Int} {items : List FlItem}
    (hitems : ∀ it ∈ items, Storable nameMax it) (hc : fitsInt count) (h0 : 0 ≤ fullCount) (h1 : fullCount < 2 ^ 31) :
    FramedListing uname page limit items count fullCount ↔
      PageFits page limit fullCount ∧ ∀ it ∈ items, fileListed uname it → RowFits it := by
  have hheader := fun it hit => (hitems it hit).header.1
  constructor
  · intro h
    exact fits_of_writes hheader h0 h1 (h.writes fun _ => 0)
  · rintro ⟨hp, h⟩
    refine ⟨fun fresh => fileListWrites_fits hheader hc h0 h1 hp h, fun it hit => (hitems it hit).line,
      pageInfo_line .., ?_⟩
    obtain ⟨pages, he⟩ := pageInfo_eq page limit count fullCount
    rw [he, List.append_assoc]
    exact List.prefix_append ..

def wideRow : FlItem :=
  { name := List.replicate 255 97, description := [], owner := ascii "bob", permissions := 1, ownerId := 1,
    hash := 0, size := 1, id := 1 }

theorem wideRow_overflows : Storable 255 wideRow ∧ ¬ FramedListing (ascii "bob") 1 15 [wideRow] 1 1 := by
  have hname : ∀ c : UInt8, c ≠ 97 → c ∉ wideRow.name := fun c hc hm => hc (List.eq_of_mem_replicate hm)
  have hlength : wideRow.name.length = 255 := List.length_replicate
  have hrow : Storable 255 wideRow := by
    refine ⟨by omega, ⟨hname nl (by decide), hname 0 (by decide)⟩, ?_, ?_, List.not_mem_nil⟩
    · exact (by decide : 1 ≤ (ascii "bob").length ∧ (ascii "bob").length ≤ unameLen - 1)
    · exact (by decide +kernel : (∀ c ∈ ascii "bob", isspace c = false) ∧ 0 ∉ ascii "bob")
  refine ⟨hrow, fun h => ?_⟩
  have hheader : ∀ it ∈ [wideRow], 0 ∉ itemH it := fun it hit => by
    rw [List.mem_singleton.mp hit]
    exact hrow.header.1
  have hfit := ((fits_of_writes hheader (by decide) (by decide) (h.writes fun _ => 0)).2
    wideRow (List.mem_singleton_self _) rfl).1
  unfold headerLength at hfit
  omega

def notesRow : FlItem :=
  { name := ascii "notes", description := ascii "x\ny", owner := ascii "alice", permissions := 0, ownerId := 2,
    hash := 0, size := 3, id := 2 }

theorem listing_framed_iff_notes : FramedListing (ascii "alice") 1 15 [notesRow] 1 1 ↔
    PageFits 1 15 1 ∧ ∀ it ∈ [notesRow], fileListed (ascii "alice") it → RowFits it := by
  have hrow : Storable 255 notesRow := ⟨by decide, by decide +kernel, by decide, by decide +kernel, by decide⟩
  have hitems : ∀ it ∈ [notesRow], Storable 255 it := fun it hit => by
    rw [List.mem_singleton.mp hit]
    exact hrow
  exact listing_framed_iff hitems ⟨by decide, by decide⟩ (by decide) (by decide)

end BbsServer
