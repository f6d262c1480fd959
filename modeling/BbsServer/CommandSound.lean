import BbsServer.ExtractSound
import BbsServer.Lib.Scan

/-!
# The dispatch of commands

`process_client_command` on the memory of `arg_1` and `arg_2`, which keep what the stack held until `sscanf` stores a
token of the line in them. A blank line leaves both, and a token of 32 bytes or more is stored past the end
(`dispatch_iff`).
-/

namespace BbsServer

open CStr

structure Arg where
  mem : Bytes
  ofLine : Bool

def Arg.scan (a : Arg) (word : Bytes) : Option Arg := (Block.puts a.mem word).map ({ mem := ·, ofLine := true })

def Arg.text (a : Arg) : Bytes := cstr a.mem

def scanArgsBlock (arg1 arg2 : Arg) (line : Bytes) : Option (Int × Arg × Arg) :=
  match scanWord line with
  | none => some (-1, arg1, arg2)
  | some (word1, rest) => do
    let arg1 ← arg1.scan word1
    match scanWord rest with
    | none => some (1, arg1, arg2)
    | some (word2, _) => do
      let arg2 ← arg2.scan word2
      some (2, arg1, arg2)

inductive Command
  | available
  | list
  | upload
  | download
  | noCriteria
  | noName
  | search
  | exitTest
  deriving DecidableEq

def searchCommand (arg1 : Arg) (line : Bytes) : Option Command :=
  match (skipTwoWords line).bind scanWord with
  | none => some .noCriteria
  | some (sType, rest) => do
    let _ ← arg1.scan sType
    some (match scanWord rest with
      | none => .noName
      | some _ => .search)

def testCommand (ret : Int) (arg1 arg2 : Arg) (line : Bytes) : Option (Command × Bool) :=
  if arg1.text = ascii "file" then
    if ret = 1 then some (.available, arg1.ofLine)
    else if arg2.text = ascii "list" then some (.list, arg1.ofLine && arg2.ofLine)
    else if arg2.text = ascii "upload" then some (.upload, arg1.ofLine && arg2.ofLine)
    else if arg2.text = ascii "download" then some (.download, arg1.ofLine && arg2.ofLine)
    else if arg2.text = ascii "search" then (searchCommand arg1 line).map (·, arg1.ofLine && arg2.ofLine)
    else some (.exitTest, arg1.ofLine && arg2.ofLine)
  else some (.exitTest, arg1.ofLine)

/-- `process_client_command` up to its action, in arrays that hold `mem1` and `mem2`. `none` is a store outside
one. -/
def commandOf (mem1 mem2 line : Bytes) : Option (Command × Bool) :=
  (scanArgsBlock ⟨mem1, false⟩ ⟨mem2, false⟩ line).bind fun (ret, arg1, arg2) => testCommand ret arg1 arg2 line

def Command.run (P : Platform) (ans : Answers) (w : World) (s : Session) (line : Bytes) :
    Command → M (World × Session)
  | .available => do
    let w ← sessionSendString w s (ascii "Available commands: list, upload, download, search")
    .ok (w, s)
  | .list => do
    let (limit, page) := scanListArgs line
    let w ← fileList P ans w s { page, limit, name := none }
    .ok (w, s)
  | .upload => do
    let (res, w, s) ← fileReceivePrepare ans w s line
    .ok (w, if res = 0 then { s with state := .opUpload } else s)
  | .download => do
    let (res, w, s) ← fileSendPrepare ans w s line
    .ok (w, if res = 0 then { s with state := .opDownload } else s)
  | .noCriteria => do
    let w ← sessionSendString w s (ascii "The search criteria is not specified!")
    .ok (w, s)
  | .noName => do
    let w ← sessionSendString w s (ascii "The file name is not specified!")
    .ok (w, s)
  | .search => .error (.fault .nullDeref)
  | .exitTest => clientExit w s line

/-- The dispatch stays in its arrays, compares tokens of the line only, and acts alike whatever the arrays held. -/
structure DispatchSafe (line : Bytes) : Prop where
  inside : ∀ mem1 mem2, mem1.length = argLen → mem2.length = argLen → ∃ c, commandOf mem1 mem2 line = some (c, true)
  same : ∀ P ans w s arg1 arg2,
    processClientCommand P { ans with arg1, arg2 } w s line = processClientCommand P ans w s line

/-- There is a token; it and the second one fit their arrays, and for `file search` the third one as well. -/
def TokensFit (line : Bytes) : Prop :=
  ∃ t₁ r₁, ReadsWord line t₁ r₁ ∧ t₁.length < argLen ∧ ∀ t₂ r₂, ReadsWord r₁ t₂ r₂ → t₂.length < argLen ∧
    (t₁ = ascii "file" → t₂ = ascii "search" → ∀ t₃ r₃, ReadsWord r₂ t₃ r₃ → t₃.length < argLen)

section
variable {P : Platform} {ans : Answers} {w : World} {s : Session} {line word mem mem1 mem2 : Bytes} {a : Arg}

theorem Arg.scan_eq (h : a.mem.length = argLen) : a.scan word =
    if word.length < argLen then some { mem := word ++ 0 :: a.mem.drop (word.length + 1), ofLine := true } else none := by
  rw [Arg.scan, Block.puts_eq, h]
  split <;> rfl

theorem Arg.scan_some {b : Arg} (h : a.mem.length = argLen) (h0 : 0 ∉ word) (hs : a.scan word = some b) :
    b.text = word ∧ b.ofLine ∧ b.mem.length = argLen ∧ word.length < argLen := by
  rw [Arg.scan_eq h] at hs
  split at hs
  · rename_i hlt
    cases hs
    refine ⟨?_, rfl, ?_, hlt⟩
    · rw [Arg.text, cstr_append_nul, cstr_of_nul_not_mem h0]
    · rw [List.length_append, List.length_cons, List.length_drop]
      omega
  · cases hs

theorem Arg.scan_none (h : a.mem.length = argLen) (hs : a.scan word = none) : argLen ≤ word.length := by
  rw [Arg.scan_eq h] at hs
  split at hs
  · cases hs
  · omega

theorem scanWord_mem {rest : Bytes} (h : scanWord line = some (word, rest)) (h0 : 0 ∉ line) :
    0 ∉ word ∧ 0 ∉ rest := by
  obtain ⟨b, rfl, -⟩ := scanWord_iff.mp h
  simp only [List.mem_append, not_or] at h0
  exact h0.2

inductive Scanned (mem1 mem2 line : Bytes) : Int → Arg → Arg → Prop
  | blank : scanWord line = none → Scanned mem1 mem2 line (-1) ⟨mem1, false⟩ ⟨mem2, false⟩
  | one {a : Arg} {t r : Bytes} : scanWord line = some (t, r) → scanWord r = none → a.text = t → a.ofLine →
    a.mem.length = argLen →
      t.length < argLen → Scanned mem1 mem2 line 1 a ⟨mem2, false⟩
  | two {a b : Arg} {t r u q : Bytes} : scanWord line = some (t, r) → scanWord r = some (u, q) → a.text = t →
    a.ofLine →
      a.mem.length = argLen → b.text = u → b.ofLine → t.length < argLen → u.length < argLen →
        Scanned mem1 mem2 line 2 a b

theorem scanArgsBlock_some {ret : Int} {a b : Arg} (h1 : mem1.length = argLen) (h2 : mem2.length = argLen)
    (h0 : 0 ∉ line)
    (h : scanArgsBlock ⟨mem1, false⟩ ⟨mem2, false⟩ line = some (ret, a, b)) : Scanned mem1 mem2 line ret a b := by
  unfold scanArgsBlock at h
  cases hw : scanWord line with
  | none =>
    rw [hw] at h
    cases h
    exact .blank hw
  | some r =>
  obtain ⟨t, r⟩ := r
  obtain ⟨ht, hr⟩ := scanWord_mem hw h0
  rw [hw] at h
  obtain ⟨a', ha, h⟩ := Option.bind_eq_some_iff.mp h
  obtain ⟨htext, hline, hmem, hlt⟩ := Arg.scan_some h1 ht ha
  cases hu : scanWord r with
  | none =>
    rw [hu] at h
    cases h
    exact .one hw hu htext hline hmem hlt
  | some q =>
  obtain ⟨u, q⟩ := q
  rw [hu] at h
  obtain ⟨b', hb, h⟩ := Option.bind_eq_some_iff.mp h
  obtain ⟨hutext, huline, -, hult⟩ := Arg.scan_some h2 (scanWord_mem hu hr).1 hb
  cases h
  exact .two hw hu htext hline hmem hutext huline hlt hult

theorem scanArgsBlock_none (h1 : mem1.length = argLen) (h2 : mem2.length = argLen) (h0 : 0 ∉ line)
    (h : scanArgsBlock ⟨mem1, false⟩ ⟨mem2, false⟩ line = none) : ∃ t r, scanWord line = some (t, r) ∧
      (argLen ≤ t.length ∨ t.length < argLen ∧ ∃ u q, scanWord r = some (u, q) ∧ argLen ≤ u.length) := by
  unfold scanArgsBlock at h
  cases hw : scanWord line with
  | none => simp [hw] at h
  | some r =>
  obtain ⟨t, r⟩ := r
  simp only [hw, Option.bind_eq_bind, Option.bind_eq_none_iff] at h
  refine ⟨t, r, rfl, ?_⟩
  cases ha : Arg.scan ⟨mem1, false⟩ t with
  | none => exact .inl (Arg.scan_none h1 ha)
  | some a =>
    have h := h a ha
    have hlt := (Arg.scan_some h1 (scanWord_mem hw h0).1 ha).2.2.2
    cases hu : scanWord r with
    | none => simp [hu] at h
    | some q =>
    obtain ⟨u, q⟩ := q
    simp only [hu, Option.bind_eq_none_iff] at h
    cases hb : Arg.scan ⟨mem2, false⟩ u with
    | some b => exact absurd (h b hb) (by simp)
    | none => exact .inr ⟨hlt, u, q, rfl, Arg.scan_none h2 hb⟩

theorem scanArgs_block (h1 : mem1.length = argLen) (h2 : mem2.length = argLen) (h0 : 0 ∉ line)
    (ha1 : ans.arg1 = cstr mem1) (ha2 : ans.arg2 = cstr mem2) : scanArgs ans line =
      (scanArgsBlock ⟨mem1, false⟩ ⟨mem2, false⟩ line).elim (.error (.fault .overflow))
        fun r => .ok (r.1, r.2.1.text, r.2.2.text) := by
  cases h : scanArgsBlock ⟨mem1, false⟩ ⟨mem2, false⟩ line with
  | some r =>
    obtain ⟨ret, a, b⟩ := r
    cases scanArgsBlock_some h1 h2 h0 h with
    | blank hw => simp only [scanArgs, hw, ha1, ha2, Option.elim_some, Arg.text]
    | one hw hr ht _ _ hlt =>
      simp only [scanArgs, hw, hr, if_neg (Nat.not_le.mpr hlt), Option.elim_some, ht, ha2]
      rfl
    | two hw hr ht _ _ hu _ hlt hult =>
      simp only [scanArgs, hw, hr, if_neg (Nat.not_le.mpr hlt), if_neg (Nat.not_le.mpr hult),
        Option.elim_some, ht, hu]
  | none =>
    obtain ⟨t, r, hw, hle | ⟨hlt, u, q, hu, hle⟩⟩ := scanArgsBlock_none h1 h2 h0 h
    · simp only [scanArgs, hw, if_pos hle, Option.elim_none]
    · simp only [scanArgs, hw, hu, if_neg (Nat.not_le.mpr hlt), if_pos hle, Option.elim_none]

theorem skipTwoWords_eq {t r u q : Bytes} (hw : scanWord line = some (t, r)) (hu : scanWord r = some (u, q)) :
    skipTwoWords line = some q := by
  simp only [skipTwoWords, hw, Option.bind_some, hu, Option.map_some]

theorem fileSearch_command (P : Platform) (ans : Answers) (h : a.mem.length = argLen) : (do
      let w ← fileSearch w s line
      .ok (w, s)) = (searchCommand a line).elim (.error (.fault .overflow)) (·.run P ans w s line) := by
  unfold fileSearch fileSearchWith searchCommand
  cases (skipTwoWords line).bind scanWord with
  | none => rfl
  | some r =>
  obtain ⟨sType, rest⟩ := r
  dsimp only
  rw [Arg.scan_eq h]
  by_cases hlt : sType.length < argLen
  · rw [if_neg (Nat.not_le.mpr hlt), if_pos hlt]
    cases scanWord rest with
    | none => rfl
    | some => rfl
  · rw [if_pos (Nat.not_lt.mp hlt), if_neg hlt]
    rfl

theorem processClientCommand_commandOf (h1 : mem1.length = argLen) (h2 : mem2.length = argLen) (h0 : 0 ∉ line)
    (ha1 : ans.arg1 = cstr mem1) (ha2 : ans.arg2 = cstr mem2) : processClientCommand P ans w s line =
      (commandOf mem1 mem2 line).elim (.error (.fault .overflow)) fun c => c.1.run P ans w s line := by
  unfold processClientCommand processClientCommandWith commandOf
  rw [scanArgs_block h1 h2 h0 ha1 ha2]
  cases h : scanArgsBlock ⟨mem1, false⟩ ⟨mem2, false⟩ line with
  | none => rfl
  | some r =>
  obtain ⟨ret, a, b⟩ := r
  have hmem : a.mem.length = argLen := by
    cases scanArgsBlock_some h1 h2 h0 h with
    | blank => exact h1
    | one _ _ _ _ hmem => exact hmem
    | two _ _ _ _ hmem => exact hmem
  show (if a.text = ascii "file" then _ else _) = (testCommand ret a b line).elim _ _
  unfold testCommand
  by_cases hfile : a.text = ascii "file"
  swap
  · rw [if_neg hfile, if_neg hfile]
    rfl
  rw [if_pos hfile, if_pos hfile]
  by_cases hret : ret = 1
  · rw [if_pos hret, if_pos hret]
    rfl
  rw [if_neg hret, if_neg hret]
  by_cases hlist : b.text = ascii "list"
  · rw [if_pos hlist, if_pos hlist]
    rfl
  rw [if_neg hlist, if_neg hlist]
  by_cases hup : b.text = ascii "upload"
  · rw [if_pos hup, if_pos hup]
    rfl
  rw [if_neg hup, if_neg hup]
  by_cases hdown : b.text = ascii "download"
  · rw [if_pos hdown, if_pos hdown]
    rfl
  rw [if_neg hdown, if_neg hdown]
  by_cases hsearch : b.text = ascii "search"
  · rw [if_pos hsearch, if_pos hsearch, fileSearch_command P ans hmem]
    cases searchCommand a line with
    | none => rfl
    | some => rfl
  · rw [if_neg hsearch, if_neg hsearch]
    rfl

theorem searchCommand_isSome {q : Bytes} (h : a.mem.length = argLen) (hskip : skipTwoWords line = some q) :
    (searchCommand a line).isSome ↔ ∀ t r, ReadsWord q t r → t.length < argLen := by
  simp only [searchCommand, hskip, Option.bind_some, ← scanWord_iff]
  cases scanWord q with
  | none => simp
  | some r =>
  obtain ⟨t, r⟩ := r
  dsimp only
  rw [Arg.scan_eq h]
  by_cases hlt : t.length < argLen
  · rw [if_pos hlt]
    exact iff_of_true rfl fun t' r' h => by cases h; exact hlt
  · rw [if_neg hlt]
    exact iff_of_false (by simp) fun h => hlt (h t r rfl)

/-- With tokens of the line in the arrays, only a third one can go wrong. -/
theorem testCommand_clean {ret : Int} {b : Arg} (ha : a.ofLine) (hb : ret ≠ 1 → b.ofLine) :
    (∃ c, testCommand ret a b line = some (c, true)) ↔
      (a.text = ascii "file" → ret ≠ 1 → b.text = ascii "search" → (searchCommand a line).isSome) := by
  unfold testCommand
  by_cases hfile : a.text = ascii "file"
  swap
  · rw [if_neg hfile]
    exact iff_of_true ⟨_, by rw [ha]⟩ fun h => absurd h hfile
  rw [if_pos hfile]
  by_cases hret : ret = 1
  · rw [if_pos hret]
    exact iff_of_true ⟨_, by rw [ha]⟩ fun _ h => absurd hret h
  rw [if_neg hret, ha, hb hret, Bool.and_self]
  have other : ∀ {k : Bytes} {c : Command}, k ≠ ascii "search" → b.text = k →
    ((∃ c', some (c, true) = some (c', true)) ↔
      (a.text = ascii "file" → ret ≠ 1 → b.text = ascii "search" → (searchCommand a line).isSome)) :=
    fun hk hb => iff_of_true ⟨_, rfl⟩ fun _ _ h => absurd (hb.symm.trans h) hk
  by_cases hlist : b.text = ascii "list"
  · rw [if_pos hlist]
    exact other (by decide) hlist
  by_cases hup : b.text = ascii "upload"
  · rw [if_neg hlist, if_pos hup]
    exact other (by decide) hup
  by_cases hdown : b.text = ascii "download"
  · rw [if_neg hlist, if_neg hup, if_pos hdown]
    exact other (by decide) hdown
  rw [if_neg hlist, if_neg hup, if_neg hdown]
  by_cases hsearch : b.text = ascii "search"
  · rw [if_pos hsearch]
    cases searchCommand a line with
    | none => exact iff_of_false (by simp) fun h => absurd (h hfile hret hsearch) (by simp)
    | some c => exact iff_of_true ⟨c, rfl⟩ fun _ _ _ => rfl
  · rw [if_neg hsearch]
    exact iff_of_true ⟨_, rfl⟩ fun _ _ h => absurd h hsearch

theorem testCommand_stale {ret : Int} {b : Arg} {c : Command} (ha : a.ofLine = false) :
    testCommand ret a b line ≠ some (c, true) := by
  unfold testCommand
  rw [ha, Bool.false_and]
  intro h
  split_ifs at h <;> simp at h

theorem commandOf_clean (h1 : mem1.length = argLen) (h2 : mem2.length = argLen) (h0 : 0 ∉ line) :
    (∃ c, commandOf mem1 mem2 line = some (c, true)) ↔ TokensFit line := by
  unfold commandOf TokensFit
  simp only [← scanWord_iff]
  cases h : scanArgsBlock ⟨mem1, false⟩ ⟨mem2, false⟩ line with
  | none =>
    refine iff_of_false (by simp) ?_
    rintro ⟨t, r, hw, hlt, hfit⟩
    obtain ⟨t', r', hw', hle | ⟨-, u, q, hu, hle⟩⟩ := scanArgsBlock_none h1 h2 h0 h
    · cases hw.symm.trans hw'
      omega
    · cases hw.symm.trans hw'
      have := (hfit u q hu).1
      omega
  | some r =>
  obtain ⟨ret, a, b⟩ := r
  rw [Option.bind_some]
  cases scanArgsBlock_some h1 h2 h0 h with
  | blank hw =>
    -- nothing was stored, and `arg_1` is compared
    exact iff_of_false (fun ⟨c, hc⟩ => testCommand_stale rfl hc) fun ⟨t, r, h, _⟩ => by rw [hw] at h; cases h
  | @one _ t r hw hr ht ha hmem hlt =>
    refine iff_of_true ((testCommand_clean ha fun h => absurd rfl h).mpr fun _ h => absurd rfl h)
      ⟨t, r, hw, hlt, fun u q h => ?_⟩
    rw [hr] at h
    cases h
  | @two _ _ t r u q hw hr ht ha hmem hu hb hlt hult =>
    rw [testCommand_clean ha fun _ => hb, searchCommand_isSome hmem (skipTwoWords_eq hw hr), ht, hu]
    simp only [← scanWord_iff]
    constructor
    · intro h
      refine ⟨t, r, hw, hlt, fun u' q' hr' => ?_⟩
      cases hr.symm.trans hr'
      exact ⟨hult, fun hfile hsearch => h hfile (by decide) hsearch⟩
    · rintro ⟨t', r', hw', -, h⟩ hfile - hsearch
      cases hw.symm.trans hw'
      exact (h u q hr).2 hfile hsearch

theorem processClientCommand_same {t r : Bytes} (hw : scanWord line = some (t, r)) (arg1 arg2 : Bytes) :
    processClientCommand P { ans with arg1, arg2 } w s line = processClientCommand P ans w s line := by
  unfold processClientCommand processClientCommandWith
  cases hu : scanWord r with
  | some q =>
    have hargs : scanArgs { ans with arg1, arg2 } line = scanArgs ans line := by simp only [scanArgs, hw, hu]
    rw [hargs]
    rfl
  | none =>
    by_cases hle : argLen ≤ t.length
    · simp only [scanArgs, hw, if_pos hle]
      rfl
    · simp only [scanArgs, hw, hu, if_neg hle]
      show (if t = ascii "file" then _ else _) = (if t = ascii "file" then _ else _)
      by_cases hfile : t = ascii "file"
      · rw [if_pos hfile, if_pos hfile]
        rfl
      · rw [if_neg hfile, if_neg hfile]

end

/-- **The dispatch of commands.** -/
theorem dispatch_iff {line : Bytes} (hl : HandedOver line) : DispatchSafe line ↔ TokensFit line := by
  constructor
  · rintro ⟨inside, -⟩
    have hlen : (List.replicate argLen (0 : UInt8)).length = argLen := List.length_replicate
    exact (commandOf_clean hlen hlen hl.nul_not_mem).mp (inside _ _ hlen hlen)
  · intro h
    refine ⟨fun mem1 mem2 h1 h2 => (commandOf_clean h1 h2 hl.nul_not_mem).mpr h, fun P ans w s arg1 arg2 => ?_⟩
    obtain ⟨t, r, hw, -⟩ := h
    exact processClientCommand_same (scanWord_iff.mpr hw) arg1 arg2

/-- A blank line: what the stack held in `arg_1` is compared. -/
theorem blank_unsafe : HandedOver (ascii " ") ∧ ¬ DispatchSafe (ascii " ") := by
  refine ⟨⟨⟨0, _, _, queryExtractFromBuf2_bare (by decide) (by decide) (by decide)⟩, by decide⟩, fun h => ?_⟩
  obtain ⟨c, hc⟩ := h.inside (List.replicate argLen 0) (List.replicate argLen 0)
    List.length_replicate List.length_replicate
  have hstale : testCommand (-1) ⟨List.replicate argLen 0, false⟩ ⟨List.replicate argLen 0, false⟩ (ascii " ") =
    some (c, true) := hc
  exact testCommand_stale rfl hstale

theorem dispatch_iff_list : DispatchSafe (ascii "file list") ↔ TokensFit (ascii "file list") :=
  dispatch_iff ⟨⟨0, _, _, queryExtractFromBuf2_bare (by decide) (by decide) (by decide)⟩, by decide⟩

end BbsServer
