import BbsServer.NameSound

/-!
# The arguments of a listing

`file list [L [P]]` and `file search name V [L [P]]`, and the `file_list` that they are to call. The second `%s` of a
search is stored through a null pointer, so that only the first command gets there (`list_args_iff`).
-/

namespace BbsServer

open CStr

/-- A word that is a decimal number below 2^31. -/
def Numeral (t : Bytes) (x : Int) : Prop := (∀ c ∈ t, isdigit c) ∧ x = digitsVal t ∧ x < 2 ^ 31

/-- The words `[L [P]]`, with the defaults for what is left out. -/
inductive Paging : List Bytes → Int → Int → Prop
  | neither : Paging [] difLimit difPageNum
  | limit {t : Bytes} {l : Int} : Numeral t l → Paging [t] l difPageNum
  | both {t u : Bytes} {l p : Int} : Numeral t l → Numeral u p → Paging [t, u] l p

/-- The line is a listing or a search by name, and asks for these arguments. -/
inductive AsksList (line : Bytes) : FileListArgs → Prop
  | list {ts : List Bytes} {limit page : Int} : Words line (ascii "file" :: ascii "list" :: ts) →
    Paging ts limit page →
      AsksList line { page, limit, name := none }
  | search {V : Bytes} {ts : List Bytes} {limit page : Int} :
      Words line (ascii "file" :: ascii "search" :: ascii "name" :: V :: ts) → V.length < fileNameLen →
        Paging ts limit page →
      AsksList line { page, limit, name := some V }

/-- `file_list` is called with the arguments, and nothing else is done. -/
def CallsFileList (line : Bytes) (args : FileListArgs) : Prop :=
  ∀ P ans w s, processClientCommand P ans w s line = do
    let w ← fileList P ans w s args
    .ok (w, s)

def searchStr (args : FileListArgs) (mem : Bytes) : Option Bytes :=
  match args.name with
  | some name => Block.puts mem name
  | none => Block.store mem 0 0

/-- The name stays inside `args.search_str`, and is what the query searches for. -/
def PassesName (args : FileListArgs) : Prop :=
  ∀ mem, mem.length = fileNameLen → ∃ m, searchStr args mem = some m ∧ cstr m = args.name.getD [] ∧
    (fileListQuery args).searchStr = cstr m

section
variable {P : Platform} {ans : Answers} {w : World} {s : Session} {line r t : Bytes} {ts : List Bytes}
  {limit page x : Int} {args : FileListArgs}

theorem Numeral.scan (h : Numeral t x) (hr : ReadsWord line t r) : scanUInt line = some (digitsVal t, r) ∧
    toInt (digitsVal t) = x := by
  obtain ⟨hd, rfl, hlt⟩ := h
  exact ⟨hr.scanUInt hd (by omega), toInt_of_lt (by omega) hlt⟩

theorem Paging.scan (h : Paging ts limit page) (hw : Words r ts) (hskip : skipTwoWords line = some r) :
    scanListArgs line = (limit, page) := by
  unfold scanListArgs
  rw [hskip, Option.bind_some]
  cases h with
  | neither => rw [hw.end]
  | limit hl =>
    cases hw with
    | cons ht hr =>
      rw [(hl.scan ht).1]
      dsimp only
      rw [hr.end, (hl.scan ht).2]
  | both hl hp =>
    cases hw with
    | cons ht hr =>
    cases hr with
    | cons hu hr =>
      rw [(hl.scan ht).1]
      dsimp only
      rw [(hp.scan hu).1]
      dsimp only
      rw [(hl.scan ht).2, (hp.scan hu).2]

theorem scanArgs_file (ans : Answers) {k : Bytes} (h : Words line (ascii "file" :: k :: ts))
    (hk : k.length < argLen) :
    ∃ r, scanArgs ans line = .ok (2, ascii "file", k) ∧ skipTwoWords line = some r ∧ Words r ts := by
  obtain ⟨r, hw, h⟩ := h.scan
  obtain ⟨q, hu, h⟩ := h.scan
  refine ⟨q, ?_, by simp only [skipTwoWords, hw, Option.bind_some, hu, Option.map_some], h⟩
  simp only [scanArgs, hw, hu, if_neg (Nat.not_le.mpr hk)]
  rfl

theorem list_calls (h : Words line (ascii "file" :: ascii "list" :: ts)) (hp : Paging ts limit page) :
    CallsFileList line { page, limit, name := none } := by
  intro P ans w s
  obtain ⟨r, hargs, hskip, hr⟩ := scanArgs_file ans h (by decide)
  unfold processClientCommand processClientCommandWith
  rw [hargs, hp.scan hr hskip]
  rfl

/-- The value of a search is stored through `s_val`. -/
theorem search_faults {V : Bytes} (h : Words line (ascii "file" :: ascii "search" :: ascii "name" :: V :: ts)) :
    processClientCommand P ans w s line = .error (.fault .nullDeref) := by
  obtain ⟨r, hargs, hskip, hr⟩ := scanArgs_file ans h (by decide)
  obtain ⟨q, hname, hq⟩ := hr.scan
  obtain ⟨z, hV, -⟩ := hq.scan
  have hsearch : fileSearchWith sessionSendString w s line = .error (.fault .nullDeref) := by
    unfold fileSearchWith
    simp only [hskip, Option.bind_some, hname, hV]
    rfl
  unfold processClientCommand processClientCommandWith
  rw [hargs, hsearch]
  rfl

theorem fileList_empty (args : FileListArgs) :
    fileList default {} world₀ (.waiting 4 [] 1) args ≠ .error (.fault .nullDeref) := by
  have hrows : (dbGetFilesData default {} [] world₀ (fileListQuery args)).1 = [] := by
    have hjoined : joined world₀ = [] := rfl
    simp [dbGetFilesData, hjoined, limitOffset, orderById]
  unfold fileList fileListWith
  rw [tables_dbGetFilesData, ok_bind]
  by_cases h0 : args.limit = 0
  · rw [if_pos h0]
    exact fun h => by cases h
  · rw [if_neg h0, if_pos hrows]
    exact nofun

theorem search_not_called {V : Bytes} (h : Words line (ascii "file" :: ascii "search" :: ascii "name" :: V :: ts)) :
    ¬ CallsFileList line args := by
  intro hcall
  have hrun := (search_faults h).symm.trans (hcall default {} world₀ (.waiting 4 [] 1))
  cases hl : fileList default {} world₀ (.waiting 4 [] 1) args with
  | error e =>
    rw [hl] at hrun
    cases hrun
    exact fileList_empty args hl
  | ok w =>
    rw [hl] at hrun
    cases hrun

theorem passesName (h : ∀ name ∈ args.name, 0 ∉ name ∧ name.length < fileNameLen) : PassesName args := by
  intro mem hmem
  unfold searchStr fileListQuery
  cases hname : args.name with
  | none =>
    obtain ⟨b, m, rfl⟩ := List.exists_cons_of_length_pos (show 0 < mem.length by rw [hmem]; decide)
    exact ⟨0 :: m, Block.store_mid (a := []), rfl, rfl⟩
  | some name =>
    obtain ⟨h0, hlt⟩ := h name hname
    have hputs : Block.puts mem name = some (name ++ 0 :: mem.drop (name.length + 1)) := by
      rw [Block.puts_eq, hmem, if_pos hlt]
    refine ⟨_, hputs, ?_⟩
    rw [cstr_append_nul, cstr_of_nul_not_mem h0]
    exact ⟨rfl, rfl⟩

end

/-- **The arguments of a listing.** -/
theorem list_args_iff {line : Bytes} {args : FileListArgs} (hl : HandedOver line) (h : AsksList line args) :
    (CallsFileList line args ∧ PassesName args ↔ args.name = none) ∧ PassesName args := by
  cases h with
  | @list ts limit page hw hp =>
    have hpass : PassesName { page, limit, name := none } := passesName nofun
    exact ⟨iff_of_true ⟨list_calls hw hp, hpass⟩ rfl, hpass⟩
  | @search V ts limit page hw hlt hp =>
    have hpass : PassesName { page, limit, name := some V } := passesName fun name hname => by
      cases hname
      exact ⟨fun h0 => hl.nul_not_mem (hw.mem V (by simp) 0 h0), hlt⟩
    exact ⟨iff_of_false (fun h => search_not_called hw h.1) nofun, hpass⟩

/-- `file search name a`. -/
theorem search_ignored : ∃ args,
    AsksList (ascii "file" ++ 32 :: (ascii "search" ++ 32 :: (ascii "name" ++ 32 :: ascii "a"))) args ∧
    ¬ CallsFileList (ascii "file" ++ 32 :: (ascii "search" ++ 32 :: (ascii "name" ++ 32 :: ascii "a"))) args := by
  have hw : Words (ascii "file" ++ 32 :: (ascii "search" ++ 32 :: (ascii "name" ++ 32 :: ascii "a")))
      [ascii "file", ascii "search", ascii "name", ascii "a"] :=
    .cons ⟨[], rfl, nofun, by decide +kernel, by decide +kernel, by decide +kernel⟩ <| .cons ⟨[32],
      rfl, by decide +kernel, by decide +kernel, by decide +kernel, by decide +kernel⟩ <|
      .cons ⟨[32], rfl, by decide +kernel, by decide +kernel, by decide +kernel, by decide +kernel⟩ <|
      .cons ⟨[32], (List.append_nil _).symm, by decide +kernel, by decide +kernel, by decide +kernel,
        nofun⟩ (.nil nofun)
  exact ⟨_, .search hw (by decide +kernel) .neither, search_not_called hw⟩

theorem list_args_iff_page : (CallsFileList (ascii "file list 5 2") { page := 2, limit := 5, name := none } ∧
      PassesName { page := 2, limit := 5, name := none } ↔ (none : Option Bytes) = none) ∧
    PassesName { page := 2, limit := 5, name := none } := by
  have hline : ascii "file list 5 2" =
      ascii "file" ++ 32 :: (ascii "list" ++ 32 :: (ascii "5" ++ 32 :: ascii "2")) := by decide +kernel
  have hw : Words (ascii "file list 5 2") [ascii "file", ascii "list", ascii "5", ascii "2"] := by
    rw [hline]
    exact .cons ⟨[], rfl, nofun, by decide +kernel, by decide +kernel, by decide +kernel⟩ <| .cons ⟨[32],
      rfl, by decide +kernel, by decide +kernel, by decide +kernel, by decide +kernel⟩ <|
      .cons ⟨[32], rfl, by decide +kernel, by decide +kernel, by decide +kernel, by decide +kernel⟩ <|
      .cons ⟨[32], (List.append_nil _).symm, by decide +kernel, by decide +kernel, by decide +kernel,
        nofun⟩ (.nil nofun)
  have hl : HandedOver (ascii "file list 5 2") :=
    ⟨⟨0, _, _, queryExtractFromBuf2_bare (by decide +kernel) (by decide +kernel) (by decide +kernel)⟩,
      by decide +kernel⟩
  exact list_args_iff hl (.list hw (.both ⟨by decide +kernel, by decide +kernel, by decide +kernel⟩
    ⟨by decide +kernel, by decide +kernel, by decide +kernel⟩))

end BbsServer
