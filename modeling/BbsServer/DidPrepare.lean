import BbsServer.Did

/-!
# What preparing a transfer can do

`file_send_prepare` and `file_receive_prepare`.
-/

namespace BbsServer

open CStr Function

section
variable {P : Platform} {ans : Answers} {w w' : World} {s s' : Session} {l : Bytes}

theorem fileSendPrepare_eq {n : Bytes} (hn : sendName l = some n) : fileSendPrepare ans w s l =
    if fileNameLen ≤ n.length then .error (.fault .overflow)
    else
      match dbGetFile ans w { id := 0, userId := 0, name := n } with
      | none => .ok (-1, w, { s with file := none })
      | some sf => sendFound ans w s sf := by
  unfold sendName at hn
  split at hn
  · rename_i b e hb he
    split at hn
    · rename_i hlt
      have hlen := (strrchr_eq_some he).2.2
      cases hn
      unfold fileSendPrepare fileSendPrepareWith
      simp only [hb, he]
      rw [if_neg (show e ≠ b + 1 by omega), List.length_take, List.length_drop,
        Nat.min_eq_left (show e - (b + 1) ≤ l.length - (b + 1) by omega)]
      exact if_congr (or_iff_right (by omega)) rfl rfl
    · cases hn
  · cases hn

theorem sendRow_eq (hs : fileCommand ans l = some (ascii "download")) {n : Bytes} (hn : sendName l = some n) :
    sendRow ans w l = dbGetFile ans w { id := 0, userId := 0, name := n } := by
  simp [sendRow, hs, hn]

theorem sendRow_some {sf : SFile} (h : sendRow ans w l = some sf) :
    fileCommand ans l = some (ascii "download") ∧ ∃ n, sendName l = some n ∧
      dbGetFile ans w { id := 0, userId := 0, name := n } = some sf := by
  unfold sendRow at h
  split at h
  · exact ⟨‹_›, Option.bind_eq_some_iff.mp h⟩
  · cases h

theorem sendFound_did {ret : Int} {sf : SFile} (hst : s.state = .opWait) (hr : sendRow ans w l = some sf)
    (h : sendFound ans w s sf = .ok (ret, w', s')) :
    Did P ans w s (some l) w' (if ret = 0 then { s' with state := .opDownload } else s') := by
  unfold sendFound sendFoundWith at h
  cases ho : ans.opened with
  | none =>
    simp only [ho] at h
    cases h
    exact .notOpened hst rfl hr ho (.log rfl)
  | some d =>
  simp only [ho] at h
  obtain ⟨w₁, hop, h⟩ := bind_ok.mp h
  rw [World.openRead_disk hop] at h
  by_cases hs : sf.size = ((w.disk (storagePath sf.hash)).getD []).length
  · rw [if_neg (not_not.mpr hs)] at h
    cases h
    rw [if_pos rfl, ← hs]
    exact .sending hst rfl hr ho hop hs
  · rw [if_pos hs] at h
    cases h
    exact .damaged hst rfl hr ho hop hs (.log rfl)

theorem fileSendPrepare_did {ret : Int} (hst : s.state = .opWait)
    (hsend : fileCommand ans l = some (ascii "download"))
    (h : fileSendPrepare ans w s l = .ok (ret, w', s')) :
    Did P ans w s (some l) w' (if ret = 0 then { s' with state := .opDownload } else s') := by
  have hq : sendRow ans w l = none → Quiet ans w s (some l) := by
    intro hr l' hl
    cases hl
    refine ⟨fun _ => ?_, fun _ => ⟨hr, fun ha => ?_⟩⟩
    · obtain ⟨ret, hargs, -⟩ := fileCommand_args hsend
      exact Bool.eq_false_iff.mpr fun hx => isExit_args hx hargs rfl
    · have := hsend.symm.trans ha.1
      exact absurd this (by decide)
  cases hn : sendName l with
  | some n =>
    rw [fileSendPrepare_eq hn] at h
    split at h
    · cases h
    cases hg : dbGetFile ans w { id := 0, userId := 0, name := n } with
    | none => simp only [hg] at h; cases h; exact .notFound hst (hq ((sendRow_eq hsend hn).trans hg))
    | some sf => simp only [hg] at h; exact sendFound_did hst ((sendRow_eq hsend hn).trans hg) h
  | none =>
  have hq := hq (by simp [sendRow, hn])
  unfold fileSendPrepare fileSendPrepareWith at h
  cases hb : strchr l 91 with
  | none =>
    simp only [hb] at h
    obtain ⟨w₁, ht, h⟩ := bind_ok.mp h
    cases h
    exact .dropped hst hq (sessionSendString_talks ht)
  | some b =>
  simp only [hb] at h
  cases he : strrchr l 93 with
  | none =>
    simp only [he] at h
    obtain ⟨w₁, ht, h⟩ := bind_ok.mp h
    cases h
    exact .dropped hst hq (sessionSendString_talks ht)
  | some e =>
  simp only [he] at h
  by_cases h0 : e = b + 1
  · rw [if_pos h0] at h
    obtain ⟨w₁, ht, h⟩ := bind_ok.mp h
    cases h
    exact .dropped hst hq (sessionSendString_talks ht)
  · have hlt : ¬ b + 1 < e := fun hlt => by simp [sendName, hb, he, hlt] at hn
    rw [if_neg h0, if_pos (.inl (by omega))] at h
    cases h

theorem probeNames_cases {name : Bytes} {size : Nat} {r : Probed} : ∀ {probes : List Probe} {seed : Int} {w : World},
    probeNames w s name size seed probes = .ok (r, w') →
    (r = .noDir ∧ probedFd probes = none ∧ w' = { w with cwd := .storage } ∧
      ∃ p ∈ probes, p.dirExists = false ∧ p.mkdir = false) ∨
    (r = .noFile ∧ probedFd probes = none ∧ w' = { w with cwd := .work }) ∨
    ∃ hash d, r = .created hash (storagePath hash) d ∧ probedFd probes = some d ∧
      ({ w with cwd := .work } : World).create s (storagePath hash) d size = .ok w'
  | [], _, _, h => by simp [probeNames] at h
  | p :: probes, seed, w, h => by
    unfold probeNames at h
    unfold probedFd
    by_cases hd : p.dirExists = false ∧ p.mkdir = false
    · have hd' : (!p.dirExists && !p.mkdir) = true := by simp [hd]
      rw [if_pos hd'] at h ⊢
      cases h
      exact .inl ⟨rfl, rfl, rfl, p, List.mem_cons_self .., hd⟩
    have hd' : ¬ (!p.dirExists && !p.mkdir) = true := by simpa using hd
    rw [if_neg hd'] at h ⊢
    cases ho : p.opened with
    | eexist =>
      simp only [ho] at h
      split at h
      · rcases probeNames_cases h with ⟨h1, h2, h3, q, hq, hf⟩ | h1 | h1
        · exact .inl ⟨h1, h2, h3, q, List.mem_cons_of_mem _ hq, hf⟩
        · exact .inr (.inl h1)
        · exact .inr (.inr h1)
      · cases h
    | failed => simp only [ho] at h; cases h; exact .inr (.inl ⟨rfl, rfl, rfl⟩)
    | fd d =>
      simp only [ho] at h
      obtain ⟨w₁, hc, h⟩ := bind_ok.mp h
      cases h
      exact .inr (.inr ⟨_, d, rfl, rfl, hc⟩)

theorem sizeT_lt (x : Int) : sizeT x < 2 ^ 64 := by
  unfold sizeT; omega

theorem scanSizePerm_lt (ans : Answers) (t : Bytes) : (scanSizePerm ans t).1 < 2 ^ 64 := by
  unfold scanSizePerm
  split
  · show 0 < 2 ^ 64; decide
  · split <;> exact sizeT_lt _

theorem receiveArgs_size {a : Bytes × Nat × Int} (h : receiveArgs ans l = some a) : a.2.1 < 2 ^ 64 := by
  obtain ⟨b, -, h⟩ := Option.bind_eq_some_iff.mp h
  obtain ⟨n, -, h⟩ := Option.bind_eq_some_iff.mp h
  split at h
  · cases h
  · cases h
    exact scanSizePerm_lt ..

theorem fileReceivePrepare_unread (hargs : receiveArgs ans l = none) : ∃ text, ∃ ret : Int, ret ≠ 0 ∧
    fileReceivePrepare ans w s l = sessionSendString w s text >>= fun w => .ok (ret, clearFileFromSess w s) := by
  unfold fileReceivePrepare fileReceivePrepareWith
  cases hb : strchr l 34 with
  | none => exact ⟨_, -5, by decide, rfl⟩
  | some b =>
    dsimp only
    cases he : strrchr (l.drop (b + 1)) 34 with
    | none => exact ⟨_, -6, by decide, rfl⟩
    | some n =>
      dsimp only
      by_cases h0 : n = 0
      · rw [if_pos h0]
        exact ⟨_, -7, by decide, rfl⟩
      · simp [receiveArgs, hb, he, h0] at hargs

def SFile.received (name : Bytes) (perm : Int) : SFile :=
  { name := some name, path := some [], description := none, permissions := toChar perm, size := 0, rest := 0,
    packageRest := 0, hash := 0, id := 0, ownerId := 0 }

def receiveNamed (ans : Answers) (w : World) (s : Session) (name : Bytes) (fsize : Nat) (perm : Int) :
    M (Int × World × Session) := do
  let file : SFile := .received name perm
  let s := { s with file := some file }
  if name.length > ans.nameMax then
    let w ← sessionSendString w s (ascii "file name is too long\n")
    .ok (-1, clearFileFromSess w { s with state := .opWait })
  else if fsize > ans.availableSpace then
    let w ← sessionSendString w s
      (ascii "There is no space for such size! (" ++ decimalInt (wrap 64 fsize) ++ ascii ")\n")
    .ok (-2, clearFileFromSess w s)
  else
    let (probed, w) ← probeNames w s name fsize fileHashSeed ans.probes
    match probed with
    | .noDir =>
      let w ← sessionSendString w s errFsv
      .ok (-4, clearFileFromSess w s)
    | .noFile =>
      let w ← sessionSendString w s errFsv
      .ok (-3, (clearFileFromSess w s).1, { (clearFileFromSess w s).2 with file := none })
    | .created hash path d =>
      let file := { file with hash, path := some path, size := fsize, rest := fsize }
      .ok (0, writeText w s (ascii "accept"), { s with file := some file, fd := some d })

theorem fileReceivePrepare_named {name : Bytes} {fsize : Nat} {perm : Int}
    (hargs : receiveArgs ans l = some (name, fsize, perm)) :
    fileReceivePrepare ans w s l = receiveNamed ans w s name fsize perm := by
  obtain ⟨b, hb, hargs⟩ := Option.bind_eq_some_iff.mp hargs
  obtain ⟨n, he, hargs⟩ := Option.bind_eq_some_iff.mp hargs
  split at hargs
  · cases hargs
  · rename_i h0
    obtain ⟨rfl, hsp⟩ := Prod.mk.inj (Option.some.inj hargs)
    unfold fileReceivePrepare fileReceivePrepareWith
    simp only [hb, he, if_neg h0, hsp]
    rfl

inductive ReceivePrepared (ans : Answers) (w : World) (s : Session) (l : Bytes) : Int → World → Session → Prop
  | unread {ret : Int} {w₁} : ret ≠ 0 → receiveArgs ans l = none → Talks w w₁ →
    ReceivePrepared ans w s l ret (clearFileFromSess w₁ s).1 (clearFileFromSess w₁ s).2
  | tooLong {name size perm w₁} : receiveArgs ans l = some (name, size, perm) → ans.nameMax < name.length →
    Talks w w₁ → ReceivePrepared ans w s l (-1) (w₁.closeFd s) (s.cleared .opWait)
  | noSpace {name size perm w₁} : receiveArgs ans l = some (name, size, perm) → ans.availableSpace < size →
    Talks w w₁ → ReceivePrepared ans w s l (-2) (w₁.closeFd s) (s.cleared s.state)
  | noFile {name size perm r w₁ w₂} {ret : Int} : receiveArgs ans l = some (name, size, perm) →
    name.length ≤ ans.nameMax → size ≤ ans.availableSpace →
    probeNames w { s with file := some (.received name perm) } name size fileHashSeed ans.probes = .ok (r, w₁) →
    r = .noDir ∨ r = .noFile → ret ≠ 0 → Talks w₁ w₂ →
      ReceivePrepared ans w s l ret (w₂.closeFd s) (s.cleared s.state)
  | created {name size perm hash path d w₁} : receiveArgs ans l = some (name, size, perm) →
    name.length ≤ ans.nameMax → size ≤ ans.availableSpace →
    probeNames w { s with file := some (.received name perm) } name size fileHashSeed ans.probes =
      .ok (.created hash path d, w₁) →
    ReceivePrepared ans w s l 0 (writeText w₁ s (ascii "accept")) { s with
      file := some { SFile.received name perm with hash, path := some path, size, rest := size }, fd := some d }

theorem fileReceivePrepare_prepared {ret : Int} (h : fileReceivePrepare ans w s l = .ok (ret, w', s')) :
    ReceivePrepared ans w s l ret w' s' := by
  cases hargs : receiveArgs ans l with
  | none =>
    obtain ⟨text, n, hn, heq⟩ := fileReceivePrepare_unread hargs
    rw [heq] at h
    obtain ⟨w₁, ht, h⟩ := bind_ok.mp h
    obtain ⟨rfl, hclear⟩ := Prod.mk.inj (Except.ok.inj h)
    obtain rfl : (clearFileFromSess w₁ s).1 = w' := congrArg Prod.fst hclear
    obtain rfl : (clearFileFromSess w₁ s).2 = s' := congrArg Prod.snd hclear
    exact .unread hn hargs (sessionSendString_talks ht)
  | some a =>
    obtain ⟨name, fsize, perm⟩ := a
    rw [fileReceivePrepare_named hargs] at h
    unfold receiveNamed at h
    dsimp only at h
    by_cases h1 : name.length > ans.nameMax
    · rw [if_pos h1] at h
      obtain ⟨w₁, ht, h⟩ := bind_ok.mp h
      cases h
      exact .tooLong hargs h1 (sessionSendString_talks ht)
    rw [if_neg h1] at h
    by_cases h2 : fsize > ans.availableSpace
    · rw [if_pos h2] at h
      obtain ⟨w₁, ht, h⟩ := bind_ok.mp h
      cases h
      exact .noSpace hargs h2 (sessionSendString_talks ht)
    rw [if_neg h2] at h
    obtain ⟨⟨r, w₁⟩, hp, h⟩ := bind_ok.mp h
    cases r with
    | noDir =>
      obtain ⟨w₂, ht, h⟩ := bind_ok.mp h
      cases h
      exact .noFile hargs (Nat.not_lt.mp h1) (Nat.not_lt.mp h2) hp (.inl rfl) (by decide) (sessionSendString_talks ht)
    | noFile =>
      obtain ⟨w₂, ht, h⟩ := bind_ok.mp h
      cases h
      exact .noFile hargs (Nat.not_lt.mp h1) (Nat.not_lt.mp h2) hp (.inr rfl) (by decide) (sessionSendString_talks ht)
    | created hash path d =>
      cases h
      exact .created hargs (Nat.not_lt.mp h1) (Nat.not_lt.mp h2) hp

theorem fileReceivePrepare_did {line : Option Bytes} {ret : Int} (hst : s.state = .opWait)
    (hline : ∀ l', line = some l' → l' = l ∧ fileCommand ans l = some (ascii "upload"))
    (h : fileReceivePrepare ans w s l = .ok (ret, w', s')) :
    Did P ans w s line w' (if ret = 0 then { s' with state := .opUpload } else s') := by
  have hquiet : (∀ a, receiveArgs ans l = some a → a.1.length ≤ ans.nameMax → a.2.1 ≤ ans.availableSpace →
      probedFd ans.probes = none) → Quiet ans w s line := by
    intro hno l' hl
    obtain ⟨rfl, hc⟩ := hline l' hl
    refine ⟨fun _ => ?_, fun _ => ⟨if_neg (by rw [hc]; decide), ?_⟩⟩
    · obtain ⟨ret, hargs, -⟩ := fileCommand_args hc
      exact Bool.eq_false_iff.mpr fun hx => isExit_args hx hargs rfl
    · rintro ⟨-, hp, a, ha, h1, h2⟩
      rw [hno a ha h1 h2] at hp
      cases hp
  have hq : ∀ {a}, receiveArgs ans l = some a → (a.1.length ≤ ans.nameMax → a.2.1 ≤ ans.availableSpace →
      probedFd ans.probes = none) → Quiet ans w s line := by
    intro a ha hno
    refine hquiet fun a' ha' => ?_
    cases ha.symm.trans ha'
    exact hno
  cases fileReceivePrepare_prepared h with
  | unread hr hargs ht =>
    rw [if_neg hr]
    exact .dropped hst (hquiet fun a ha => by rw [hargs] at ha; cases ha) ht
  | tooLong hargs h1 ht => exact .refused hst (hq hargs fun h => absurd h (Nat.not_le.mpr h1)) (.inl rfl) ht
  | noSpace hargs h2 ht =>
    rw [if_neg (by decide), hst]
    exact .refused hst (hq hargs fun _ h => absurd h (Nat.not_le.mpr h2)) (.inl rfl) ht
  | noFile hargs h1 h2 hp hno hr ht =>
    rw [if_neg hr, hst]
    rcases probeNames_cases hp with ⟨-, hfd, rfl, hm⟩ | ⟨-, hfd, rfl⟩ | ⟨hash, d, rfl, -⟩
    · exact .refused hst (hq hargs fun _ _ => hfd) (.inr (.inr ⟨rfl, hm⟩)) ht
    · exact .refused hst (hq hargs fun _ _ => hfd) (.inr (.inl rfl)) ht
    · rcases hno with hno | hno <;> cases hno
  | created hargs h1 h2 hp =>
    rcases probeNames_cases hp with ⟨hno, -⟩ | ⟨hno, -⟩ | ⟨hash, d, hr, hfd, hc⟩
    · cases hno
    · cases hno
    · cases hr
      refine .accepted hst (fun l' hl => ?_) (receiveArgs_size hargs) hc (.log rfl)
      obtain ⟨rfl, hcmd⟩ := hline l' hl
      exact ⟨⟨hcmd, by simp [hfd], _, hargs, h1, h2⟩, hargs⟩

end

end BbsServer
