import BbsServer.CommandSound
import BbsServer.CreateSound

/-!
# The fields of a registration

`create_user` on the memory of `i_db_user_create`. Its fields lie behind one another, and a word that does not fit its
field goes on into the next one, where it is partly overwritten; what is stored is what the line says where every word
fits, and white space follows `register` (`registration_iff`).
-/

namespace BbsServer

open CStr

inductive UserField
  | uname
  | pass
  | email
  deriving DecidableEq

def UserField.len : UserField → Nat
  | .uname => unameLen
  | .pass => passLen
  | .email => emailLen

def UserField.offset : UserField → Nat
  | .uname => 0
  | .pass => unameLen
  | .email => unameLen + passLen

def userFields : List UserField := [.uname, .pass, .email]

/-- The memory of an `i_db_user_create`, and whether every write has stayed in its field. -/
structure UserMem where
  mem : Bytes
  inside : Bool

def userMemLen : Nat := unameLen + passLen + emailLen

def UserMem.scan (p : UserMem) (f : UserField) (word : Bytes) : Option UserMem :=
  (Block.fill p.mem f.offset (word ++ [0])).map ({ mem := ·, inside := p.inside && word.length < f.len })

def UserMem.text (p : UserMem) (f : UserField) : Bytes := cstr (p.mem.drop f.offset)

def scanFields (p : UserMem) : List UserField → Bytes → Option (Nat × UserMem)
  | [], _ => some (0, p)
  | f :: fs, s =>
    match scanWord s with
    | none => some (0, p)
    | some (word, rest) => do
      let p ← p.scan f word
      let (n, p) ← scanFields p fs rest
      some (n + 1, p)

def scanRegisterBlock (p : UserMem) (line : Bytes) : Option (Int × UserMem) :=
  let keyword := ascii "register"
  if keyword.isPrefixOf line then
    (scanFields p userFields (line.drop keyword.length)).map fun (n, p) => (if n = 0 then -1 else n, p)
  else some (if line.isPrefixOf keyword then -1 else 0, p)

def registerCall (mem line : Bytes) : Option (Option DbUserCreate × Bool) :=
  (scanRegisterBlock ⟨mem, true⟩ line).map fun (ret, p) =>
    (if ret = 3 then some { uname := p.text .uname, pass := p.text .pass, email := p.text .email } else none, p.inside)

/-- The second, third and fourth word of the line, which fit their fields. -/
structure TakenFrom (line : Bytes) (p : DbUserCreate) : Prop where
  words : ∃ keyword more, Words line (keyword :: p.uname :: p.pass :: p.email :: more)
  uname : p.uname.length < unameLen
  pass : p.pass.length < passLen
  email : p.email.length < emailLen

def FieldsTaken (line : Bytes) : Prop :=
  ∀ mem : Bytes, mem.length = userMemLen → ∃ call, registerCall mem line = some (call, true) ∧
    ∀ p ∈ call, TakenFrom line p

/-- The words behind `register`, as many as there are fields for, fit them; and if there is one for each field,
white space follows `register`, or four times the same word. -/
def FieldsFit (line : Bytes) : Prop :=
  let behind := line.drop (ascii "register").length
  ∃ ts, Words behind ts ∧ (∀ x ∈ userFields.zip ts, x.2.length < x.1.len) ∧
    (3 ≤ ts.length → (∀ c ∈ behind.head?, isspace c) ∨ ∃ t more, ts = t :: t :: t :: t :: more)

def registered : List Bytes → Option DbUserCreate
  | uname :: pass :: email :: _ => some { uname, pass, email }
  | _ => none

section
variable {p q : UserMem} {f : UserField} {fs : List UserField} {line s t rest word mem : Bytes}
  {ts : List Bytes} {n : Nat}

/-! ## One word -/

theorem UserMem.scan_some (h : p.scan f word = some q) : Block.fill p.mem f.offset (word ++ [0]) = some q.mem ∧
    (q.inside ↔ p.inside ∧ word.length < f.len) := by
  obtain ⟨m, hm, rfl⟩ := Option.map_eq_some_iff.mp h
  exact ⟨hm, by simp⟩

theorem UserMem.scan_fits (h : f.offset + f.len ≤ p.mem.length) (hw : word.length < f.len) :
    ∃ q, p.scan f word = some q := by
  obtain ⟨m, hm⟩ := Block.fill_some (m := p.mem) (i := f.offset) (t := word ++ [0])
    (by rw [List.length_append, List.length_singleton]; omega)
  exact ⟨_, congrArg (Option.map _) hm⟩

/-! ## All words -/

theorem scanFields_fits (hw : Words s ts) (hfs : fs.Pairwise fun f g => f.offset + f.len ≤ g.offset)
    (hmem : ∀ f ∈ fs, f.offset + f.len ≤ p.mem.length) (hfit : ∀ x ∈ fs.zip ts, x.2.length < x.1.len) :
    ∃ q, scanFields p fs s = some (min fs.length ts.length, q) ∧ q.inside = p.inside ∧
      (∀ x ∈ fs.zip ts, Block.StringAt q.mem x.1.offset x.2) ∧
      ∀ i t, Block.StringAt p.mem i t → (∀ f ∈ fs, i + t.length < f.offset) → Block.StringAt q.mem i t := by
  induction fs generalizing s ts p with
  | nil => exact ⟨p, by rw [List.length_nil, Nat.zero_min]; rfl, rfl, nofun, fun _ _ h _ => h⟩
  | cons f fs ih =>
    cases ts with
    | nil =>
      refine ⟨p, ?_, rfl, nofun, fun _ _ h _ => h⟩
      rw [scanFields, hw.scan_end]
      rfl
    | cons word ts =>
      obtain ⟨rest, hscan, hrest⟩ := hw.scan
      obtain ⟨hf, hfs⟩ := List.pairwise_cons.mp hfs
      obtain ⟨hword, hfit⟩ := List.forall_mem_cons.mp hfit
      obtain ⟨p', hp'⟩ := UserMem.scan_fits (hmem f (List.mem_cons_self ..)) hword
      obtain ⟨hfill, hin⟩ := UserMem.scan_some hp'
      have hlen := Block.length_fill hfill
      obtain ⟨q, hq, hqin, hat, hframe⟩ := ih (p := p') hrest hfs
        (fun g hg => hlen ▸ hmem g (List.mem_cons_of_mem _ hg)) hfit
      refine ⟨q, ?_, ?_, List.forall_mem_cons.mpr ⟨?_, hat⟩, fun i t ht hi => ?_⟩
      · simp only [scanFields, hscan, hp', hq, Option.bind_eq_bind, Option.bind_some, List.length_cons,
          Nat.succ_min_succ]
      · rw [hqin]
        exact Bool.eq_iff_iff.mpr (hin.trans (and_iff_left hword))
      · exact hframe _ _ (Block.stringAt_fill hfill) fun g hg => (Nat.add_lt_add_left hword _).trans_le (hf g hg)
      · obtain ⟨hif, hi⟩ := List.forall_mem_cons.mp hi
        exact hframe _ _ (ht.fill hif hfill) hi

theorem scanFields_inside (hw : Words s ts) (h : scanFields p fs s = some (n, q)) (hq : q.inside) :
    p.inside ∧ ∀ x ∈ fs.zip ts, x.2.length < x.1.len := by
  induction fs generalizing s ts p n with
  | nil => cases h; exact ⟨hq, nofun⟩
  | cons f fs ih =>
    cases ts with
    | nil =>
      rw [scanFields, hw.scan_end] at h
      cases h
      exact ⟨hq, nofun⟩
    | cons word ts =>
      obtain ⟨rest, hscan, hrest⟩ := hw.scan
      rw [scanFields, hscan] at h
      obtain ⟨p', hp', h⟩ := Option.bind_eq_some_iff.mp h
      obtain ⟨⟨m, q'⟩, hrun, h⟩ := Option.bind_eq_some_iff.mp h
      cases h
      obtain ⟨hin, hfit⟩ := ih hrest hrun
      obtain ⟨hp, hword⟩ := (UserMem.scan_some hp').2.mp hin
      exact ⟨hp, List.forall_mem_cons.mpr ⟨hword, hfit⟩⟩

/-! ## The line -/

theorem words_keyword (keyword : Bytes) (hk : ∀ c ∈ keyword, isspace c = false) (hne : keyword ≠ [])
    (hs : ∀ c ∈ s.head?, isspace c) (hw : Words s ts) : Words (keyword ++ s) (keyword :: ts) :=
  .cons ⟨[], rfl, nofun, hne, hk, hs⟩ hw

/-- A keyword that no white space follows goes on into the next word. -/
theorem words_joined (keyword : Bytes) (hk : ∀ c ∈ keyword, isspace c = false) (hs : ¬ ∀ c ∈ s.head?, isspace c)
    (hw : Words s (t :: ts)) : Words (keyword ++ s) ((keyword ++ t) :: ts) := by
  cases hw with
  | cons hr hts =>
    obtain ⟨b, rfl, hb, hne, ht, hrest⟩ := hr
    have hb' : b = [] := by
      cases b with
      | nil => rfl
      | cons c b => exact absurd (by simpa using hb c (List.mem_cons_self ..)) hs
    subst hb'
    refine .cons ⟨[], ?_, nofun, by simp [hne], fun c hc => ?_, hrest⟩ hts
    · simp
    · rcases List.mem_append.mp hc with hc | hc
      · exact hk c hc
      · exact ht c hc

theorem register_word : ∀ c ∈ ascii "register", isspace c = false := by decide +kernel

theorem userFields_apart : userFields.Pairwise fun f g => f.offset + f.len ≤ g.offset := by decide

theorem userFields_inside : ∀ f ∈ userFields, f.offset + f.len ≤ userMemLen := by decide

theorem scanRegisterBlock_register (p : UserMem) (s : Bytes) : scanRegisterBlock p (ascii "register" ++ s) =
    (scanFields p userFields s).map fun (n, p) => (if n = 0 then -1 else n, p) := by
  have hp : (ascii "register").isPrefixOf (ascii "register" ++ s) = true :=
    List.isPrefixOf_iff_prefix.mpr (List.prefix_append ..)
  rw [scanRegisterBlock]
  dsimp only
  rw [if_pos hp, List.drop_left]

theorem registerCall_fits (hm : mem.length = userMemLen) (h0 : 0 ∉ s) (hw : Words s ts)
    (hfit : ∀ x ∈ userFields.zip ts, x.2.length < x.1.len) : registerCall mem (ascii "register" ++ s) =
    some (registered ts, true) := by
  obtain ⟨q, hq, hin, hat, -⟩ := scanFields_fits (p := ⟨mem, true⟩) hw userFields_apart
    (fun f hf => hm ▸ userFields_inside f hf) hfit
  have htext : ∀ x ∈ userFields.zip ts, q.text x.1 = x.2 := by
    intro x hx
    have hmem : x.2 ∈ ts := (List.of_mem_zip hx).2
    exact (hat x hx).cstr fun h => h0 (hw.mem x.2 hmem 0 h)
  rw [registerCall, scanRegisterBlock_register, hq]
  match ts with
  | [] => simp [hin, userFields, registered]
  | [_] => simp [hin, userFields, registered]
  | [_, _] => simp [hin, userFields, registered]
  | uname :: pass :: email :: more =>
    have hu : q.text .uname = uname := htext (.uname, uname) (by simp [userFields])
    have hp : q.text .pass = pass := htext (.pass, pass) (by simp [userFields])
    have he : q.text .email = email := htext (.email, email) (by simp [userFields])
    simp [hin, userFields, registered, hu, hp, he]

theorem registerCall_inside {call : Option DbUserCreate} (hw : Words s ts)
    (h : registerCall mem (ascii "register" ++ s) = some (call, true)) :
    ∀ x ∈ userFields.zip ts, x.2.length < x.1.len := by
  rw [registerCall, scanRegisterBlock_register, Option.map_map] at h
  obtain ⟨⟨n, q⟩, hrun, h⟩ := Option.map_eq_some_iff.mp h
  exact (scanFields_inside hw hrun (congrArg Prod.snd h)).2

theorem scanRegister_words (hw : Words s ts) : scanRegister (ascii "register" ++ s) =
    if ∀ x ∈ userFields.zip ts, x.2.length < x.1.len then .ok (registered ts) else .error (.fault .overflow) := by
  have hp : (ascii "register").isPrefixOf (ascii "register" ++ s) = true :=
    List.isPrefixOf_iff_prefix.mpr (List.prefix_append ..)
  rw [scanRegister]
  rw [hp, List.drop_left]
  simp only [Bool.not_true, Bool.false_eq_true, if_false]
  cases ts with
  | nil => simp [hw.scan_end, registered]
  | cons uname ts =>
    obtain ⟨r, hscan, hw⟩ := hw.scan
    have hu : userFields.zip (uname :: ts) = (.uname, uname) :: [UserField.pass, .email].zip ts := rfl
    simp only [hscan, hu, List.forall_mem_cons]
    by_cases hlen : uname.length < unameLen
    swap
    · rw [if_pos (Nat.not_lt.mp hlen), if_neg fun h => hlen h.1]
    rw [if_neg (Nat.not_le.mpr hlen)]
    cases ts with
    | nil => simp [hw.scan_end, registered, UserField.len, hlen]
    | cons pass ts =>
      obtain ⟨r, hscan, hw⟩ := hw.scan
      have hp : [UserField.pass, .email].zip (pass :: ts) = (.pass, pass) :: [UserField.email].zip ts := rfl
      simp only [hscan, hp, List.forall_mem_cons]
      by_cases hlen' : pass.length < passLen
      swap
      · rw [if_pos (Nat.not_lt.mp hlen'), if_neg fun h => hlen' h.2.1]
      rw [if_neg (Nat.not_le.mpr hlen')]
      cases ts with
      | nil => simp [hw.scan_end, registered, UserField.len, hlen, hlen']
      | cons email ts =>
        obtain ⟨r, hscan, -⟩ := hw.scan
        simp only [hscan, registered, List.zip_cons_cons, List.zip_nil_left, List.mem_singleton, forall_eq]
        by_cases hlen'' : email.length < emailLen
        · rw [if_neg (Nat.not_le.mpr hlen''), if_pos ⟨hlen, hlen', hlen''⟩]
        · rw [if_pos (Nat.not_lt.mp hlen''), if_neg fun h => hlen'' h.2.2]

theorem scanRegister_block (hm : mem.length = userMemLen) (h0 : 0 ∉ line) : scanRegister line =
    match registerCall mem line with
    | some (call, true) => .ok call
    | _ => .error (.fault .overflow) := by
  by_cases hline : ascii "register" <+: line
  swap
  · have hk : (ascii "register").isPrefixOf line = false :=
      Bool.eq_false_iff.mpr fun h => hline (List.isPrefixOf_iff_prefix.mp h)
    rw [scanRegister, registerCall, scanRegisterBlock]
    dsimp only
    rw [hk]
    simp only [Bool.not_false, if_true, Bool.false_eq_true, if_false, Option.map_some]
    split <;> rfl
  obtain ⟨s, rfl⟩ := hline
  obtain ⟨ts, hw⟩ := exists_words s
  rw [scanRegister_words hw]
  by_cases hfit : ∀ x ∈ userFields.zip ts, x.2.length < x.1.len
  · rw [if_pos hfit, registerCall_fits hm (fun h => h0 (List.mem_append_right _ h)) hw hfit]
  · rw [if_neg hfit]
    split
    · rename_i call hcall
      exact absurd (registerCall_inside hw hcall) hfit
    · rfl

/-- The call has what the line says, with white space behind the keyword or four times the same word. -/
theorem taken_iff {uname pass email : Bytes} {more : List Bytes} (hw : Words s (uname :: pass :: email :: more))
    (hfit : ∀ x ∈ userFields.zip (uname :: pass :: email :: more), x.2.length < x.1.len) :
    TakenFrom (ascii "register" ++ s) ⟨uname, pass, email⟩ ↔
      (∀ c ∈ s.head?, isspace c) ∨ ∃ t rest, uname :: pass :: email :: more = t :: t :: t :: t :: rest := by
  have hu : uname.length < unameLen := hfit (.uname, uname) (by simp [userFields])
  have hp : pass.length < passLen := hfit (.pass, pass) (by simp [userFields])
  have he : email.length < emailLen := hfit (.email, email) (by simp [userFields])
  constructor
  · rintro ⟨⟨keyword, rest, hwords⟩, -, -, -⟩
    by_cases hs : ∀ c ∈ s.head?, isspace c
    · exact .inl hs
    · have := hwords.unique (words_joined _ register_word hs hw)
      simp only [List.cons.injEq] at this
      obtain ⟨-, rfl, rfl, rfl⟩ := this
      exact .inr ⟨_, _, rfl⟩
  · intro h
    refine ⟨?_, hu, hp, he⟩
    by_cases hs : ∀ c ∈ s.head?, isspace c
    · exact ⟨_, _, words_keyword _ register_word (by decide) hs hw⟩
    · obtain ⟨t, rest, ht⟩ := h.resolve_left hs
      simp only [List.cons.injEq] at ht
      obtain ⟨rfl, rfl, rfl, rfl⟩ := ht
      exact ⟨_, _, words_joined _ register_word hs hw⟩

end

/-- **The fields of a registration.** -/
theorem registration_iff {line : Bytes} (hl : HandedOver line) (h : ascii "register" <+: line) :
    FieldsTaken line ↔ FieldsFit line := by
  obtain ⟨s, rfl⟩ := h
  have h0 : 0 ∉ s := fun h => hl.nul_not_mem (List.mem_append_right _ h)
  obtain ⟨ts, hw⟩ := exists_words s
  unfold FieldsFit
  dsimp only
  rw [List.drop_left]
  constructor
  · intro h
    have hlen : (List.replicate userMemLen (0 : UInt8)).length = userMemLen := List.length_replicate
    obtain ⟨call, hcall, htaken⟩ := h _ hlen
    have hfit := registerCall_inside hw hcall
    refine ⟨ts, hw, hfit, fun hlong => ?_⟩
    rw [registerCall_fits hlen h0 hw hfit] at hcall
    match ts, hlong with
    | uname :: pass :: email :: more, _ =>
      cases hcall
      exact (taken_iff hw hfit).mp (htaken _ rfl)
  · rintro ⟨us, hus, hfit, hsep⟩ mem hm
    obtain rfl := hus.unique hw
    refine ⟨_, registerCall_fits hm h0 hw hfit, ?_⟩
    match us, hsep with
    | [], _ | [_], _ | [_, _], _ => nofun
    | uname :: pass :: email :: more, hsep =>
      rintro p ⟨⟩
      exact (taken_iff hw hfit).mpr (hsep (by simp))

theorem registration_iff_bob : FieldsTaken (ascii "register bob 1234 b@c") ↔
    FieldsFit (ascii "register bob 1234 b@c") :=
  registration_iff ⟨⟨0, _, _, queryExtractFromBuf2_bare (by decide) (by decide) (by decide)⟩, by decide⟩
    (List.prefix_append (ascii "register") (ascii " bob 1234 b@c"))

def longName : Bytes := ascii "register " ++ (List.replicate unameLen 97 ++ ascii " p e")

/-- `db_user_create` gets the name with the password behind it. -/
theorem longName_call : registerCall (List.replicate userMemLen 0) longName =
    some (some ⟨List.replicate unameLen 97 ++ ascii "p", ascii "p", ascii "e"⟩, false) := by decide +kernel

theorem longName_spills : HandedOver longName ∧ ascii "register" <+: longName ∧ ¬ FieldsTaken longName := by
  refine ⟨⟨⟨0, _, _, queryExtractFromBuf2_bare (by decide) (by decide) (by decide)⟩, by decide⟩,
    List.prefix_append (ascii "register") _, fun h => ?_⟩
  obtain ⟨call, hcall, -⟩ := h _ List.length_replicate
  rw [longName_call] at hcall
  cases hcall

end BbsServer
