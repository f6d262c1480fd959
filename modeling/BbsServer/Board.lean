import Mathlib.Data.List.Nodup
import Mathlib.Logic.Function.Basic
import BbsServer.Lib.Run

/-!
# A bulletin board

What the server is for: visitors come as members or as guests, hand in files, and fetch what others have handed in. A
member has a name of its own, and a file that is in the library stays there as it was handed in.
-/

namespace BbsServer

open Function Runs

variable {ν β : Type}

structure Member (ν : Type) where
  key : Int
  name : ν
  secret : ν
  contact : ν

structure Draft (ν : Type) where
  name : ν
  size : Nat
  permissions : Int

structure Entry (ν β : Type) where
  key : Int
  owner : Int
  draft : Draft ν
  note : ν
  content : List β

structure Ident (ν : Type) where
  name : ν
  key : Int

inductive Visit (ν β : Type)
  | unknown
  | asked (name : ν)
  | inside (as : Ident ν)
  | giving (as : Ident ν) (draft : Draft ν) (content : List β)
  | fetching (as : Ident ν) (key : Int)
  | lost

@[ext] structure Board (ν β : Type) where
  members : List (Member ν)
  library : List (Entry ν β)
  visits : Nat → Option (Visit ν β)

inductive Move (ν β : Type)
  | arrive (i : Nat)
  | ask (i : Nat) (name : ν)
  | refuse (i : Nat)
  | enter (i : Nat) (m : Member ν)
  | guest (i : Nat) (as : Ident ν)
  | join (i : Nat) (m : Member ν)
  | lapse (i : Nat) (m : Member ν)
  | give (i : Nat) (draft : Draft ν)
  | hand (i : Nat) (more : List β)
  | withdraw (i : Nat)
  | publish (i : Nat) (e : Entry ν β)
  | fetch (i : Nat) (e : Entry ν β)
  | done (i : Nat)
  | lose (i : Nat)
  | leave (i : Nat)

def Move.visitor : Move ν β → Nat
  | .arrive i | .ask i _ | .refuse i | .enter i _ | .guest i _ | .join i _ | .lapse i _ | .give i _ | .hand i _
  | .withdraw i | .publish i _ | .fetch i _ | .done i | .lose i | .leave i => i

def Member.ident (m : Member ν) : Ident ν := ⟨m.name, m.key⟩

def Board.turn (b : Board ν β) (i : Nat) (x : Option (Visit ν β)) : Board ν β :=
  { b with visits := update b.visits i x }

def Board.addMember (b : Board ν β) (m : Member ν) : Board ν β := { b with members := b.members ++ [m] }

def Board.addEntry (b : Board ν β) (e : Entry ν β) : Board ν β := { b with library := b.library ++ [e] }

structure Board.Fresh (b : Board ν β) (m : Member ν) : Prop where
  key : m.key ∉ b.members.map (·.key)
  name : m.name ∉ b.members.map (·.name)
  contact : m.contact ∉ b.members.map (·.contact)

/-- The moves; a guest has the name `anyone`, and whoever joins without being written down is inside all the same
(`lapse`). -/
inductive Board.Step (anyone : ν) (b : Board ν β) : Move ν β → Board ν β → Prop
  | arrive {i} : b.visits i = none → Step anyone b (.arrive i) (b.turn i (some .unknown))
  | ask {i n} : b.visits i = some .unknown → Step anyone b (.ask i n) (b.turn i (some (.asked n)))
  | refuse {i n} : b.visits i = some (.asked n) → Step anyone b (.refuse i) (b.turn i (some .unknown))
  | enter {i m} : b.visits i = some (.asked m.name) → m ∈ b.members →
    Step anyone b (.enter i m) (b.turn i (some (.inside m.ident)))
  | guest {i a} : b.visits i = some .unknown → a.name = anyone →
    Step anyone b (.guest i a) (b.turn i (some (.inside a)))
  | join {i m} : b.visits i = some .unknown → b.Fresh m →
    Step anyone b (.join i m) ((b.addMember m).turn i (some (.inside m.ident)))
  | lapse {i m} : b.visits i = some .unknown → b.Fresh m →
    Step anyone b (.lapse i m) (b.turn i (some (.inside m.ident)))
  | give {i a d} : b.visits i = some (.inside a) → Step anyone b (.give i d) (b.turn i (some (.giving a d [])))
  | hand {i a d c more} : b.visits i = some (.giving a d c) →
    Step anyone b (.hand i more) (b.turn i (some (.giving a d (c ++ more))))
  | withdraw {i a d c} : b.visits i = some (.giving a d c) → Step anyone b (.withdraw i) (b.turn i (some (.inside a)))
  | publish {i a e} : b.visits i = some (.giving a e.draft e.content) → e.owner = a.key →
    e.key ∉ b.library.map (·.key) → Step anyone b (.publish i e) ((b.addEntry e).turn i (some (.inside a)))
  | fetch {i a e} : b.visits i = some (.inside a) → e ∈ b.library →
    Step anyone b (.fetch i e) (b.turn i (some (.fetching a e.key)))
  | done {i a k} : b.visits i = some (.fetching a k) → Step anyone b (.done i) (b.turn i (some (.inside a)))
  | lose {i a k} : b.visits i = some (.fetching a k) → Step anyone b (.lose i) (b.turn i (some .lost))
  | leave {i x} : b.visits i = some x → Step anyone b (.leave i) (b.turn i none)

def Visit.ident : Visit ν β → Option (Ident ν)
  | .inside a | .giving a _ _ | .fetching a _ => some a
  | _ => none

def Board.who (b : Board ν β) (i : Nat) : Option (Ident ν) := (b.visits i).bind Visit.ident

def Move.hands (i : Nat) (given : Option (Draft ν) × List β) : Move ν β → Option (Draft ν) × List β
  | .give j d => if j = i then (some d, []) else given
  | .hand j more => if j = i then (given.1, given.2 ++ more) else given
  | _ => given

def handedBy (i : Nat) (ms : List (Move ν β)) : Option (Draft ν) × List β := ms.foldl (Move.hands i) (none, [])

section
variable {anyone : ν} {b b' : Board ν β} {m : Move ν β} {ms : List (Move ν β)} {i j : Nat} {a : Ident ν}

@[simp] theorem turn_members {x : Option (Visit ν β)} : (b.turn i x).members = b.members := rfl
@[simp] theorem turn_library {x : Option (Visit ν β)} : (b.turn i x).library = b.library := rfl
@[simp] theorem turn_self {x : Option (Visit ν β)} : (b.turn i x).visits i = x := update_self ..
theorem turn_of_ne {x : Option (Visit ν β)} (h : j ≠ i) : (b.turn i x).visits j = b.visits j := update_of_ne h ..

theorem Board.Step.elsewhere (h : Board.Step anyone b m b') (hj : j ≠ m.visitor) : b'.visits j = b.visits j := by
  cases h <;> exact turn_of_ne hj

/-! ## What stays -/

theorem Board.Step.library (h : Board.Step anyone b m b') :
    b'.library = b.library ∨ ∃ i e, m = .publish i e ∧ b'.library = b.library ++ [e] := by
  cases h with
  | publish => exact .inr ⟨_, _, rfl, rfl⟩
  | _ => exact .inl rfl

theorem Board.Step.members (h : Board.Step anyone b m b') :
    b'.members = b.members ∨ ∃ i x, m = .join i x ∧ b.Fresh x ∧ b'.members = b.members ++ [x] := by
  cases h with
  | join _ hf => exact .inr ⟨_, _, rfl, hf, rfl⟩
  | _ => exact .inl rfl

structure Board.Grows (b b' : Board ν β) : Prop where
  library : b.library <+: b'.library
  members : b.members <+: b'.members

theorem Board.Step.grows (h : Board.Step anyone b m b') : b.Grows b' := by
  constructor
  · rcases h.library with he | ⟨_, _, -, he⟩ <;> simp [he]
  · rcases h.members with he | ⟨_, _, -, -, he⟩ <;> simp [he]

/-! ## Who is inside -/

/-- Whoever is inside is a member, or has a guest's name. -/
def Board.Genuine (anyone : ν) (b : Board ν β) : Prop :=
  ∀ ⦃i a⦄, b.who i = some a → a.name = anyone ∨ ∃ m ∈ b.members, m.ident = a

theorem Board.Step.genuine (h : Board.Step anyone b m b') (hm : ∀ i x, m ≠ .lapse i x) (hg : b.Genuine anyone) :
    b'.Genuine anyone := by
  have hgrow : ∀ {a : Ident ν}, (a.name = anyone ∨ ∃ x ∈ b.members, x.ident = a) →
      a.name = anyone ∨ ∃ x ∈ b'.members, x.ident = a := fun ha =>
    ha.imp_right fun hx => hx.imp fun _ hx => ⟨h.grows.members.subset hx.1, hx.2⟩
  intro i a hi
  by_cases hj : i = m.visitor
  case neg =>
    rw [Board.who, h.elsewhere hj] at hi
    exact hgrow (hg hi)
  subst hj
  unfold Board.who at hi
  cases h with
  | enter _ hx =>
    rw [Move.visitor, turn_self] at hi
    cases hi
    exact .inr ⟨_, hx, rfl⟩
  | guest _ hname =>
    rw [Move.visitor, turn_self] at hi
    cases hi
    exact .inl hname
  | @join i x _ _ =>
    rw [Move.visitor, turn_self] at hi
    cases hi
    exact .inr ⟨x, by simp [Board.addMember], rfl⟩
  | lapse => exact absurd rfl (hm _ _)
  | give hv | hand hv | withdraw hv | publish hv | fetch hv | done hv =>
    rw [Move.visitor, turn_self] at hi
    cases hi
    exact hgrow (hg (by rw [Board.who, hv]; rfl))
  | arrive | ask | refuse | lose | leave =>
    rw [Move.visitor, turn_self] at hi
    cases hi

theorem Board.Step.publisher {e : Entry ν β} (h : Board.Step anyone b (.publish i e) b') :
    ∃ a, b.who i = some a ∧ e.owner = a.key := by
  cases h with
  | publish hv howner => exact ⟨_, by rw [Board.who, hv]; rfl, howner⟩

theorem genuine_run (r : Run (Board.Step anyone) b ms b') (hms : ∀ m ∈ ms, ∀ i x, m ≠ .lapse i x)
    (hb : ∀ i, b.visits i = none) : b'.Genuine anyone := by
  induction r with
  | nil =>
    intro i a hi
    rw [Board.who, hb i] at hi
    cases hi
  | snoc _ hs ih => exact hs.genuine (hms _ (by simp)) (ih fun m hm => hms m (List.mem_append_left _ hm))

/-! ## Where the files come from -/

theorem handedBy_append (i : Nat) (ms : List (Move ν β)) (m : Move ν β) :
    handedBy i (ms ++ [m]) = Move.hands i (handedBy i ms) m := by
  rw [handedBy, List.foldl_append]
  rfl

theorem hands_of_ne {given : Option (Draft ν) × List β} (h : i ≠ m.visitor) : Move.hands i given m = given := by
  cases m <;> first | rfl | exact if_neg (Ne.symm h)

def Hands (ms : List (Move ν β)) (b : Board ν β) : Prop :=
  ∀ i a d c, b.visits i = some (.giving a d c) → handedBy i ms = (some d, c)

theorem Board.Step.hands (h : Board.Step anyone b m b') (hg : Hands ms b) : Hands (ms ++ [m]) b' := by
  intro i a d c hi
  rw [handedBy_append]
  by_cases hj : i = m.visitor
  case neg =>
    rw [hands_of_ne hj]
    rw [h.elsewhere hj] at hi
    exact hg i a d c hi
  subst hj
  cases h with
  | give hv =>
    obtain ⟨rfl, rfl, rfl⟩ : _ ∧ _ ∧ _ := by simpa [Move.visitor] using hi
    exact if_pos rfl
  | @hand _ _ _ c₀ more hv =>
    obtain ⟨rfl, rfl, rfl⟩ : _ ∧ _ ∧ _ := by simpa [Move.visitor] using hi
    have hc := hg _ _ _ _ hv
    dsimp only [Move.visitor]
    rw [Move.hands, if_pos rfl, hc]
  | _ => simp [Move.visitor] at hi

theorem hands_run (r : Run (Board.Step anyone) b ms b') (hb : ∀ i, b.visits i = none) : Hands ms b' := by
  induction r with
  | nil =>
    intro i a d c hi
    rw [hb i] at hi
    cases hi
  | snoc _ hs ih => exact hs.hands ih

/-- Every file that was not there at first has been published with what its visitor had announced and handed in. -/
theorem published_as_handed (r : Run (Board.Step anyone) b ms b') (hb : ∀ i, b.visits i = none) {e : Entry ν β}
    (he : e ∈ b'.library) : e ∈ b.library ∨ ∃ ms₁ i ms₂, ms = ms₁ ++ .publish i e :: ms₂ ∧
      handedBy i ms₁ = (some e.draft, e.content) := by
  induction r with
  | nil => exact .inl he
  | @snoc c b' ms m r hs ih =>
    have hold : e ∈ c.library → e ∈ b.library ∨ ∃ ms₁ i ms₂, ms ++ [m] = ms₁ ++ .publish i e :: ms₂ ∧
        handedBy i ms₁ = (some e.draft, e.content) := by
      intro he
      rcases ih he with h | ⟨ms₁, i, ms₂, rfl, hh⟩
      · exact .inl h
      · exact .inr ⟨ms₁, i, ms₂ ++ [m], by simp, hh⟩
    rcases hs.library with hl | ⟨i, e', rfl, hl⟩
    · exact hold (hl ▸ he)
    · rw [hl, List.mem_append, List.mem_singleton] at he
      rcases he with he | rfl
      · exact hold he
      · cases hs with
        | publish hv => exact .inr ⟨ms, i, [], rfl, hands_run r hb _ _ _ _ hv⟩

end

end BbsServer
