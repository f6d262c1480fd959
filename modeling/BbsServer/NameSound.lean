import BbsServer.ExtractSound
import BbsServer.GrammarSound

/-!
# The name of a download

`file_send_prepare` copies what is between the first `[` and the last `]` of its line into `args.name`, with the
distance of the two as the length, however they are placed and however long the name is. `sendArgs` is this on the
memory of `args.name`; `download_name_iff` says for which lines it stays inside.
-/

namespace BbsServer

open CStr

/-- What `file_send_prepare` does before it has a row: it returns with a message, or asks for a name. -/
inductive Asked
  | refused (code : Int) (text : Bytes)
  | asks (name : Bytes)
  deriving DecidableEq

def sendArgs (line : Bytes) : Option Asked :=
  let name := List.replicate fileNameLen 0
  match strchr line 91 with
  | none => some (.refused (-4) (ascii "Error: can't find starting character \"[\" for the file name"))
  | some b =>
    let nameBegin := b + 1
    match strrchr line 93 with
    | none => some (.refused (-5) (ascii "Error: can't find ending character \"]\" for the file name"))
    | some nameEnd =>
      let nameLen := toInt ((nameEnd : Int) - nameBegin)
      if nameLen = 0 then some (.refused (-6) (ascii "File name should not be empty"))
      else do
        let name ← Block.strncpy name (line.drop nameBegin ++ [0]) (sizeT nameLen)
        let name ← Block.store name nameLen 0
        some (.asks (cstr name))

/-- The text between the first `[` and the last `]` of a line. -/
def Bracketed (line name : Bytes) : Prop := ∃ pre post, line = pre ++ 91 :: (name ++ 93 :: post) ∧
    91 ∉ pre ∧ 93 ∉ post

/-- The line is refused, or asks for the bracketed text, and nothing is written outside `args.name`. -/
def AsksBracketed (line : Bytes) : Prop :=
  ∃ a, sendArgs line = some a ∧ ∀ N, a = .asks N → Bracketed line N ∧ 1 ≤ N.length ∧ N.length ≤ fileNameLen - 1

/-- If there are both brackets, the last `]` is behind the first `[`, and what is between fits `args.name`. -/
def NameFits (line : Bytes) : Prop := ∀ b ∈ strchr line 91, ∀ e ∈ strrchr line 93, b < e ∧ e - (b + 1) < fileNameLen

section
variable {ans : Answers} {w w' : World} {s s' : Session} {line N : Bytes} {b e : Nat}

theorem brackets (hb : strchr line 91 = some b) (he : strrchr line 93 = some e) : b ≠ e := by
  rintro rfl
  have h91 := (strchr_eq_some hb).1
  have h93 := (strrchr_eq_some he).1
  have := List.append_cancel_left (h91.symm.trans h93)
  exact absurd (List.cons.inj this).1 (by decide)

theorem sendArgs_between (h0 : 0 ∉ line) (hlen : line.length < 2 ^ 31) (hb : strchr line 91 = some b)
    (he : strrchr line 93 = some e) (h : b + 1 < e) : sendArgs line =
      if e - (b + 1) < fileNameLen then some (.asks ((line.drop (b + 1)).take (e - (b + 1)))) else none := by
  have hlt := (strrchr_eq_some he).2.2
  obtain ⟨n, rfl⟩ : ∃ n, e = b + 1 + n := ⟨e - (b + 1), by omega⟩
  have hint : toInt (((b + 1 + n : Nat) : Int) - (b + 1 : Nat)) = n := by
    rw [toInt_of_lt (by omega) (by omega)]
    omega
  have htake : (line.drop (b + 1) ++ [0]).take n = (line.drop (b + 1)).take n :=
    List.take_append_of_le_length (by rw [List.length_drop]; omega)
  have hn0 : 0 ∉ (line.drop (b + 1)).take n := fun h => h0 (List.mem_of_mem_drop (List.mem_of_mem_take h))
  unfold sendArgs
  rw [hb, he]
  dsimp only
  rw [hint, if_neg (by omega), Nat.add_sub_cancel_left, sizeT_of_lt (by omega)]
  by_cases hfit : n < fileNameLen
  · have hcopy := Block.strncpy_whole (m := List.replicate fileNameLen 0) (t := line.drop (b + 1) ++ [0]) (n := n)
      (by rw [List.length_append, List.length_drop]; omega) (by rwa [htake]) (by rwa [List.length_replicate])
    obtain ⟨name, hname, hstore⟩ := Option.bind_eq_some_iff.mp hcopy
    simp only [if_pos hfit, hname, hstore, Option.bind_eq_bind, Option.bind_some]
    rw [htake, cstr_append_nul, cstr_of_nul_not_mem hn0]
  · rw [if_neg hfit]
    cases hname : Block.strncpy (List.replicate fileNameLen 0) (line.drop (b + 1) ++ [0]) n with
    | none => rfl
    | some name =>
      have := (Block.length_strncpy hname).trans List.length_replicate
      exact congrArg (Option.bind · _) (Block.store_eq_none (.inr (by omega)))

/-- The last `]` comes before the first `[`: the length is negative, and more is cleared than there is. -/
theorem sendArgs_reversed (hlen : line.length < 2 ^ 31) (hb : strchr line 91 = some b) (he : strrchr line 93 = some e)
    (h : e < b) : sendArgs line = none := by
  have hlt := (strchr_eq_some hb).2.2
  have hint : toInt ((e : Int) - (b + 1 : Nat)) = (e : Int) - (b + 1 : Nat) := toInt_of_lt (by omega) (by omega)
  have hsize : (List.replicate fileNameLen (0 : UInt8)).length < sizeT ((e : Int) - (b + 1 : Nat)) := by
    rw [List.length_replicate]
    unfold sizeT fileNameLen
    omega
  unfold sendArgs
  rw [hb, he]
  dsimp only
  rw [hint, if_neg (by omega), Block.strncpy_eq_none hsize]
  rfl

theorem sendArgs_empty (hb : strchr line 91 = some b) (he : strrchr line 93 = some (b + 1)) :
    sendArgs line = some (.refused (-6) (ascii "File name should not be empty")) := by
  unfold sendArgs
  rw [hb, he]
  dsimp only
  rw [Int.sub_self, if_pos (by decide)]

theorem fileSendPrepare_sendArgs (h0 : 0 ∉ line) (hlen : line.length < 2 ^ 31) : fileSendPrepare ans w s line =
    match sendArgs line with
    | none => .error (.fault .overflow)
    | some (.refused code text) => do
      let w ← sessionSendString w s text
      let (w, s) := clearFileFromSess w s
      .ok (code, w, s)
    | some (.asks name) =>
      match dbGetFile ans w { id := 0, userId := 0, name } with
      | none => .ok (-1, w, { s with file := none })
      | some sf => sendFound ans w s sf := by
  cases hb : strchr line 91 with
  | none => simp only [fileSendPrepare, fileSendPrepareWith, sendArgs, hb]
  | some b =>
  cases he : strrchr line 93 with
  | none => simp only [fileSendPrepare, fileSendPrepareWith, sendArgs, hb, he]
  | some e =>
  rcases Nat.lt_trichotomy e (b + 1) with hlt | rfl | hlt
  · have hne := brackets hb he
    rw [sendArgs_reversed hlen hb he (by omega)]
    simp only [fileSendPrepare, fileSendPrepareWith, hb, he]
    rw [if_neg (by omega), if_pos (.inl hlt)]
  · rw [sendArgs_empty hb he]
    simp only [fileSendPrepare, fileSendPrepareWith, hb, he, if_true]
  · have hargs := sendArgs_between h0 hlen hb he hlt
    by_cases hfit : e - (b + 1) < fileNameLen
    · rw [if_pos hfit] at hargs
      rw [hargs]
      simp only [fileSendPrepare, fileSendPrepareWith, hb, he]
      rw [if_neg (by omega)]
      exact if_neg (by omega)
    · rw [if_neg hfit] at hargs
      rw [hargs]
      simp only [fileSendPrepare, fileSendPrepareWith, hb, he]
      rw [if_neg (by omega), if_pos (.inr (by omega))]

theorem bracketed_between (hb : strchr line 91 = some b) (he : strrchr line 93 = some e) (h : b + 1 ≤ e) :
    Bracketed line ((line.drop (b + 1)).take (e - (b + 1))) := by
  obtain ⟨hpre, hno, hlt⟩ := strchr_eq_some hb
  obtain ⟨hsplit, hpost, -⟩ := strrchr_eq_some he
  refine ⟨line.take b, line.drop (e + 1), ?_, hno, hpost⟩
  have hdrop : line.drop (b + 1) = (line.drop (b + 1)).take (e - (b + 1)) ++ 93 :: line.drop (e + 1) := by
    conv_lhs => rw [hsplit]
    rw [List.drop_append_of_le_length (by rw [List.length_take]; have := (strrchr_eq_some he).2.2; omega),
      ← List.drop_take]
  conv_lhs => rw [hpre, hdrop]

/-- The lines for which the name is what is between the brackets. -/
theorem asksBracketed_iff (h0 : 0 ∉ line) (hlen : line.length < 2 ^ 31) : AsksBracketed line ↔ NameFits line := by
  have refused : ∀ {code text}, sendArgs line = some (.refused code text) → AsksBracketed line := fun h =>
    ⟨_, h, fun _ h => by cases h⟩
  cases hb : strchr line 91 with
  | none => exact iff_of_true (refused (by simp only [sendArgs, hb]; rfl)) (by simp [NameFits, hb])
  | some b =>
  cases he : strrchr line 93 with
  | none => exact iff_of_true (refused (by simp only [sendArgs, hb, he]; rfl)) (by simp [NameFits, he])
  | some e =>
  have hfits : NameFits line ↔ b < e ∧ e - (b + 1) < fileNameLen := by simp [NameFits, hb, he]
  have hlt := (strrchr_eq_some he).2.2
  rw [hfits]
  rcases Nat.lt_trichotomy e (b + 1) with hrev | rfl | hbetween
  · have hne := brackets hb he
    refine iff_of_false ?_ (by omega)
    rintro ⟨a, ha, -⟩
    rw [sendArgs_reversed hlen hb he (by omega)] at ha
    cases ha
  · exact iff_of_true (refused (sendArgs_empty hb he)) ⟨by omega, by rw [Nat.sub_self]; decide⟩
  · have hargs := sendArgs_between h0 hlen hb he hbetween
    by_cases hfit : e - (b + 1) < fileNameLen
    · rw [if_pos hfit] at hargs
      refine iff_of_true ⟨_, hargs, fun N hN => ?_⟩ ⟨by omega, hfit⟩
      cases hN
      refine ⟨bracketed_between hb he (by omega), ?_⟩
      rw [List.length_take, List.length_drop]
      omega
    · rw [if_neg hfit] at hargs
      refine iff_of_false ?_ fun h => hfit h.2
      rintro ⟨a, ha, -⟩
      rw [hargs] at ha
      cases ha

/-! ## Names that were uploaded -/

theorem received_name (h : fileReceivePrepare ans w s line = .ok (0, w', s')) {f : SFile} (hf : s'.file = some f)
    (hN : f.name = some N) : N ≠ [] ∧ N.length ≤ line.length ∧ ∀ c ∈ N, c ∈ line := by
  obtain ⟨name, size, perm, hargs, -, -, hash, path, d, w₁, -, -, rfl⟩ := fileReceivePrepare_zero.mp h
  obtain ⟨t, ⟨pre, rfl, -, -, hne⟩, -⟩ := receiveArgs_iff.mp hargs
  cases hf
  cases hN
  refine ⟨hne, ?_, fun c hc => by simp [hc]⟩
  simp only [List.length_append, List.length_cons]
  omega

theorem sendArgs_downloadLine (hN : N ≠ []) (h0 : 0 ∉ N) (hlen : N.length ≤ inBufSize) :
    sendArgs (downloadLine N) = some (.asks N) ↔ N.length < fileNameLen := by
  obtain ⟨hb, he⟩ := downloadLine_brackets N
  have hpos : 0 < N.length := List.length_pos_iff.mpr hN
  have hname : ((downloadLine N).drop (14 + 1)).take (15 + N.length - (14 + 1)) = N := by
    have := sendName_downloadLine hN
    unfold sendName at this
    rw [hb, he] at this
    dsimp only at this
    rw [if_pos (by omega)] at this
    exact Option.some.inj this
  have h0' : 0 ∉ downloadLine N := by simpa [downloadLine] using ⟨by decide, by decide, h0⟩
  have hlen' : (downloadLine N).length < 2 ^ 31 := by
    have hlength : (downloadLine N).length = 16 + N.length := by
      simp only [downloadLine, List.length_append, List.length_cons, List.length_nil,
        show (ascii "file").length = 4 from rfl,
        show (ascii "download").length = 8 from rfl]
      omega
    have hin : inBufSize = 1024 := rfl
    omega
  rw [sendArgs_between h0' hlen' hb he (by omega), hname, show 15 + N.length - (14 + 1) = N.length by omega]
  by_cases hfit : N.length < fileNameLen
  · rw [if_pos hfit]
    exact iff_of_true rfl hfit
  · rw [if_neg hfit]
    exact iff_of_false nofun hfit

theorem HandedOver.short (h : HandedOver line) : line.length < 2 ^ 31 := h.fits.trans_lt (by decide)

end

/-- **Names of downloads.** Of a line as a download, and of the name that a line uploads. -/
theorem download_name_iff {line : Bytes} (hl : HandedOver line) : (AsksBracketed line ↔ NameFits line) ∧
    ∀ ans w s w' s' f N, fileReceivePrepare ans w s line = .ok (0, w', s') → s'.file = some f → f.name = some N →
      (sendArgs (downloadLine N) = some (.asks N) ↔ N.length < fileNameLen) := by
  refine ⟨asksBracketed_iff hl.nul_not_mem hl.short, fun ans w s w' s' f N h hf hN => ?_⟩
  obtain ⟨hne, hlen, hsub⟩ := received_name h hf hN
  exact sendArgs_downloadLine hne (fun h0 => hl.nul_not_mem (hsub 0 h0)) (hlen.trans hl.fits)

/-- A command with its brackets the wrong way round. -/
theorem name_reversed : HandedOver (ascii "file download ]a[") ∧ ¬ AsksBracketed (ascii "file download ]a[") := by
  refine ⟨⟨⟨0, _, _, queryExtractFromBuf2_bare (by decide) (by decide) (by decide)⟩, by decide⟩, ?_⟩
  rintro ⟨a, ha, -⟩
  rw [sendArgs_reversed (b := 16) (e := 14) (by decide) (by decide) (by decide) (by decide)] at ha
  cases ha

theorem download_name_iff_a : (AsksBracketed (ascii "file download [a]") ↔ NameFits (ascii "file download [a]")) ∧
    (sendArgs (downloadLine (ascii "a")) = some (.asks (ascii "a")) ↔ (ascii "a").length < fileNameLen) := by
  have hacc : (fileReceivePrepare { availableSpace := 1000, probes := [{ opened := .fd 0 }] }
      world₀ (.waiting 4 (ascii "bob") 1)
      (ascii "file upload \"a\" 1 0")).toOption.any
      (fun r => r.1 = 0 && (r.2.2.file.bind (·.name)) == some (ascii "a")) = true := by
    decide +kernel
  obtain ⟨⟨ret, w', s'⟩, hr, h⟩ := any_ok hacc
  simp only [Bool.and_eq_true, decide_eq_true_eq, beq_iff_eq] at h
  obtain ⟨rfl, hname⟩ := h
  obtain ⟨f, hf, hN⟩ := Option.bind_eq_some_iff.mp hname
  have handed : ∀ {l : Bytes}, l ≠ [] → 0 ∉ l → nl ∉ l → l.length ≤ inBufSize → HandedOver l := fun hne h0 hn hlen =>
    ⟨⟨0, _, _, queryExtractFromBuf2_bare hne h0 hn⟩, hlen⟩
  exact ⟨(download_name_iff (handed (by decide) (by decide) (by decide) (by decide))).1,
    (download_name_iff (handed (by decide) (by decide) (by decide) (by decide))).2 _ _ _ _ _ f _ hr hf hN⟩

end BbsServer
