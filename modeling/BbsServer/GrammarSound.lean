import BbsServer.Lib.Scan
import BbsServer.PrepareSound
import BbsServer.DescriptionSound

/-!
# The grammar of an upload

`file_receive_prepare` takes a name, a size and permissions from its line with `strchr`, `strrchr` and an `sscanf`
whose count it does not look at: the line is accepted whether or not it is `"NAME" SIZE PERM`
(`upload_grammar_iff`).
-/

namespace BbsServer

open CStr

def Quoted (line name rest : Bytes) : Prop :=
  ∃ pre, line = pre ++ 34 :: (name ++ 34 :: rest) ∧ 34 ∉ pre ∧ 34 ∉ rest ∧ name ≠ []

/-- `"NAME" SIZE PERM` in a line, with at least `k` blanks before each number. -/
def UploadCommand (k : Nat) (line name : Bytes) (size : Nat) (perm : Int) : Prop :=
  ∃ t t₁ t₂, Quoted line name t ∧ ReadsInt k t size t₁ ∧ ReadsInt k t₁ perm t₂

def StartsUpload (ans : Answers) (w : World) (s : Session) (name : Bytes) (size : Nat) (perm : Int) (w' : World)
    (s' : Session) : Prop :=
  ∃ hash path d w₁,
    probeNames w { s with file := some (.received name perm) } name size fileHashSeed ans.probes =
      .ok (.created hash path d, w₁) ∧
    w' = writeText w₁ s (ascii "accept") ∧
    s' = { s with file := some { SFile.received name perm with hash, path := some path, size, rest := size }, fd := some d }

/-- The line is accepted exactly when it is an upload command whose name and size fit, with what the command says. -/
def ReceivesByGrammar (k nameMax space : Nat) (line : Bytes) : Prop :=
  ∀ ans w s w' s', ans.nameMax = nameMax → ans.availableSpace = space →
    (fileReceivePrepare ans w s line = .ok (0, w', s') ↔ ∃ name size perm, UploadCommand k line name size perm ∧
      name.length ≤ nameMax ∧ size ≤ space ∧ StartsUpload ans w s name size perm w' s')

/-- No name that fits, a size that does not fit the space, or both numbers in the ranges that are kept. -/
def NumbersFit (k nameMax space : Nat) (line : Bytes) : Prop :=
  ∀ name t, Quoted line name t → name.length ≤ nameMax →
    (∃ x t₁, ReadsInt 0 t x t₁ ∧ space < sizeT (clampLong x)) ∨
    ∃ (size : Nat) (perm : Int) (t₁ t₂ : Bytes), ReadsInt k t size t₁ ∧ ReadsInt k t₁ perm t₂ ∧ size < 2 ^ 63 ∧
      toChar (clampLong perm) = toChar perm

section
variable {ans : Answers} {w w' : World} {s s' : Session} {line name name' t t' : Bytes} {size size' k : Nat}
  {perm perm' : Int}

/-! ## What is taken from a line -/

theorem Quoted.find (h : Quoted line name t) : ∃ b, strchr line 34 = some b ∧ line.drop (b + 1) = name ++ 34 :: t ∧
    strrchr (line.drop (b + 1)) 34 = some name.length := by
  obtain ⟨pre, rfl, hpre, hrest, -⟩ := h
  have hdrop : (pre ++ 34 :: (name ++ 34 :: t)).drop (pre.length + 1) = name ++ 34 :: t := by
    rw [← List.drop_drop, List.drop_left]
    rfl
  exact ⟨pre.length, strchr_append hpre, hdrop, by rw [hdrop]; exact strrchr_append hrest⟩

theorem receiveArgs_iff {sp : Nat × Int} : receiveArgs ans line = some (name, sp) ↔ ∃ t, Quoted line name t ∧
    sp = scanSizePerm ans t := by
  constructor
  · intro h
    obtain ⟨b, hb, h⟩ := Option.bind_eq_some_iff.mp h
    obtain ⟨n, hn, h⟩ := Option.bind_eq_some_iff.mp h
    split at h
    · cases h
    · rename_i h0
      obtain ⟨rfl, rfl⟩ := Prod.mk.inj (Option.some.inj h)
      obtain ⟨hline, hpre, -⟩ := strchr_eq_some hb
      obtain ⟨hname, hrest, hlt⟩ := strrchr_eq_some hn
      refine ⟨_, ⟨line.take b, ?_, hpre, hrest, ?_⟩, rfl⟩
      · conv_lhs => rw [hline, hname]
      · refine List.length_pos_iff.mp ?_
        rw [List.length_take]
        omega
  · rintro ⟨t, h, rfl⟩
    obtain ⟨b, hb, hdrop, hn⟩ := h.find
    have hne : name.length ≠ 0 := fun h0 => by
      obtain ⟨-, -, -, -, hne⟩ := h
      exact hne (List.eq_nil_of_length_eq_zero h0)
    unfold receiveArgs
    rw [hb, Option.bind_some, hn, Option.bind_some, if_neg hne, hdrop, List.take_left]
    congr 3
    rw [← List.drop_drop, List.drop_left]
    rfl

theorem Quoted.unique (h : Quoted line name t) (h' : Quoted line name' t') : name = name' ∧ t = t' := by
  obtain ⟨b, hb, hdrop, hn⟩ := h.find
  obtain ⟨b', hb', hdrop', hn'⟩ := h'.find
  obtain rfl : b = b' := Option.some.inj (hb.symm.trans hb')
  have hlen := Option.some.inj (hn.symm.trans hn')
  obtain ⟨rfl, ht⟩ := List.append_inj (hdrop.symm.trans hdrop') hlen
  exact ⟨rfl, (List.cons.inj ht).2⟩

theorem fileReceivePrepare_zero : fileReceivePrepare ans w s line = .ok (0, w', s') ↔ ∃ name size perm,
    receiveArgs ans line = some (name, size, perm) ∧ name.length ≤ ans.nameMax ∧ size ≤ ans.availableSpace ∧
      StartsUpload ans w s name size perm w' s' := by
  constructor
  · intro h
    generalize hret : (0 : Int) = ret at h
    cases fileReceivePrepare_prepared h with
    | unread hr _ _ => exact absurd hret.symm hr
    | tooLong _ _ _ => cases hret
    | noSpace _ _ _ => cases hret
    | noFile _ _ _ _ _ hr _ => exact absurd hret.symm hr
    | created hargs h1 h2 hp => exact ⟨_, _, _, hargs, h1, h2, _, _, _, _, hp, rfl, rfl⟩
  · rintro ⟨name, size, perm, hargs, h1, h2, hash, path, d, w₁, hp, rfl, rfl⟩
    rw [fileReceivePrepare_named hargs]
    unfold receiveNamed
    dsimp only
    rw [if_neg (Nat.not_lt.mpr h1), if_neg (Nat.not_lt.mpr h2)]
    exact bind_ok.mpr ⟨_, hp, rfl⟩

/-! ## The fields -/

theorem sizeT_clampLong (h : size < 2 ^ 63) : sizeT (clampLong size) = size := by
  rw [clampLong_of_le (by omega) (by omega)]
  exact sizeT_of_lt (by omega)

theorem sizeT_clampLong_le (size : Nat) : sizeT (clampLong size) ≤ size := by
  unfold sizeT clampLong
  omega

theorem StartsUpload.congr (hp : toChar perm = toChar perm') (h : StartsUpload ans w s name size perm w' s') :
    StartsUpload ans w s name size perm' w' s' := by
  unfold StartsUpload SFile.received at h ⊢
  rwa [← hp]

theorem StartsUpload.fields (h : StartsUpload ans w s name size perm w' s')
    (h' : StartsUpload ans w s name' size' perm' w' s') : size = size' ∧ toChar perm = toChar perm' := by
  obtain ⟨hash, path, d, w₁, -, -, rfl⟩ := h
  obtain ⟨hash', path', d', w₁', -, -, hs⟩ := h'
  have hf := Option.some.inj (congrArg Session.file hs)
  exact ⟨congrArg SFile.size hf, congrArg SFile.permissions hf⟩

theorem startsUpload (name : Bytes) (size : Nat) (perm : Int) (h : ans.probes = [{ opened := .fd 0 }]) :
    ∃ w' s', StartsUpload ans world₀ s name size perm w' s' := by
  have hprobe : ∃ w₁, probeNames world₀ { s with file := some (.received name perm) }
      name size fileHashSeed [{ opened := .fd 0 }] =
      .ok (.created (murmurHash3X86_32 name fileHashSeed) (storagePath (murmurHash3X86_32 name fileHashSeed)) 0, w₁) :=
    ⟨_, rfl⟩
  obtain ⟨w₁, hprobe⟩ := hprobe
  exact ⟨_, _, _, _, _, w₁, h ▸ hprobe, rfl, rfl⟩

theorem scanSizePerm_reads {t₁ t₂ : Bytes} (h₁ : ReadsInt k t size t₁) (h₂ : ReadsInt k t₁ perm t₂) :
    scanSizePerm ans t = (sizeT (clampLong size), wrap 32 (clampLong perm)) := by
  simp only [scanSizePerm, h₁.scan.1, h₂.scan.2]

theorem scanSizePerm_pos (h : size < (scanSizePerm ans t).1) : ∃ x t₁, ReadsInt 0 t x t₁ ∧
    (scanSizePerm ans t).1 = sizeT (clampLong x) := by
  unfold scanSizePerm at h ⊢
  cases hs : scanLong t with
  | none =>
    rw [hs] at h
    exact absurd h (Nat.not_lt_zero _)
  | some r =>
    obtain ⟨y, t₁⟩ := r
    obtain ⟨x, hx, rfl⟩ := scanLong_reads hs
    refine ⟨x, t₁, hx, ?_⟩
    dsimp only
    split <;> rfl

end

/-- **The grammar of an upload.** -/
theorem upload_grammar_iff (k nameMax space : Nat) (line : Bytes) :
    ReceivesByGrammar k nameMax space line ↔ NumbersFit k nameMax space line := by
  constructor
  · intro h name t hq hname
    let ans : Answers := { nameMax, availableSpace := space, probes := [{ opened := .fd 0 }] }
    have hargs : receiveArgs ans line = some (name, scanSizePerm ans t) := receiveArgs_iff.mpr ⟨t, hq, rfl⟩
    by_cases hsize : space < (scanSizePerm ans t).1
    · obtain ⟨x, t₁, hx, he⟩ := scanSizePerm_pos hsize
      exact .inl ⟨x, t₁, hx, he ▸ hsize⟩
    · -- the line is accepted, so it is a command that says what was taken
      obtain ⟨w', s', hstart⟩ : ∃ w' s',
          StartsUpload ans world₀ (.waiting 4 [] 0) name (scanSizePerm ans t).1 (scanSizePerm ans t).2 w' s' :=
        startsUpload _ _ _ rfl
      have hacc := fileReceivePrepare_zero.mpr ⟨_, _, _, hargs, hname, Nat.not_lt.mp hsize, hstart⟩
      obtain ⟨name', size, perm, ⟨t', t₁, t₂, hq', h₁, h₂⟩, -, -, hstart'⟩ := (h ans world₀ _ w' s' rfl rfl).mp hacc
      obtain ⟨rfl, rfl⟩ := hq.unique hq'
      have hf := hstart.fields hstart'
      rw [scanSizePerm_reads h₁ h₂, toChar_wrap] at hf
      refine .inr ⟨size, perm, t₁, t₂, h₁, h₂, ?_, hf.2⟩
      have hlt : sizeT (clampLong size) < 2 ^ 63 := by
        unfold sizeT clampLong
        omega
      exact hf.1 ▸ hlt
  · intro h ans w s w' s' hmax hspace
    subst hmax hspace
    rw [fileReceivePrepare_zero]
    constructor
    · rintro ⟨name, size, perm, hargs, hname, hsize, hstart⟩
      obtain ⟨t, hq, hsp⟩ := receiveArgs_iff.mp hargs
      rcases h name t hq hname with ⟨x, t₁, hx, hlt⟩ | ⟨size', perm', t₁, t₂, h₁, h₂, hfits, hperm⟩
      · have hs : size = sizeT (clampLong x) := by
          have := congrArg Prod.fst hsp
          unfold scanSizePerm at this
          rw [hx.scan.1] at this
          dsimp only at this
          split at this <;> exact this
        omega
      · rw [scanSizePerm_reads h₁ h₂, sizeT_clampLong hfits] at hsp
        obtain ⟨rfl, rfl⟩ := Prod.mk.inj hsp
        exact ⟨name, size, perm', ⟨t, t₁, t₂, hq, h₁, h₂⟩, hname, hsize, hstart.congr (by rw [toChar_wrap, hperm])⟩
    · rintro ⟨name, size, perm, ⟨t, t₁, t₂, hq, h₁, h₂⟩, hname, hsize, hstart⟩
      rcases h name t hq hname with ⟨x, t₁', hx, hlt⟩ | ⟨size', perm', t₁', t₂', h₁', h₂', hfits, hperm⟩
      · -- no larger size is kept than the line says
        rw [(hx.unique h₁).1] at hlt
        have := sizeT_clampLong_le size
        omega
      · obtain ⟨he, rfl⟩ := h₁'.unique h₁
        obtain ⟨rfl, rfl⟩ := h₂'.unique h₂
        obtain rfl : size' = size := by omega
        refine ⟨name, size', wrap 32 (clampLong perm'), receiveArgs_iff.mpr ⟨t, hq, ?_⟩, hname, hsize,
          hstart.congr ?_⟩
        · rw [scanSizePerm_reads h₁ h₂, sizeT_clampLong hfits]
        · rw [toChar_wrap, hperm]

theorem upload_without_size : ¬ ReceivesByGrammar 1 255 1000 (ascii "file upload \"a\"\n") := by
  intro h
  have hacc : (fileReceivePrepare { availableSpace := 1000, probes := [{ opened := .fd 0 }] }
      world₀ (.waiting 4 (ascii "bob") 1)
      (ascii "file upload \"a\"\n")).toOption.any (fun r => r.1 = 0) = true := by
    decide +kernel
  obtain ⟨⟨ret, w', s'⟩, hr, h0⟩ := any_ok hacc
  obtain rfl : ret = 0 := by simpa using h0
  obtain ⟨name, size, perm, ⟨t, t₁, t₂, hq, h₁, -⟩, -⟩ := (h _ _ _ _ _ rfl rfl).mp hr
  have hq' : Quoted (ascii "file upload \"a\"\n") (ascii "a") [nl] :=
    ⟨ascii "file upload ", rfl, by decide, by decide, by decide⟩
  obtain ⟨-, rfl⟩ := hq.unique hq'
  have := h₁.scan.1
  rw [show scanLong [nl] = none from rfl] at this
  cases this

end BbsServer
