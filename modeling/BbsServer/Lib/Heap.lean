import Mathlib.Data.Set.Finite.Basic
import Mathlib.Data.Set.Finite.Lattice
import Mathlib.Data.Finite.Prod
import Mathlib.Data.Set.Card

/-!
# A heap

Blocks with one value each, under their addresses. `NULL` is `none`, and a block that is freed is not there any
more, so that freeing it or reading it again has no result. Lists are linked through a field of their blocks
(`Linked`).
-/

structure Heap (α : Type) where
  get : Nat → Option α
  finite : {p | get p ≠ none}.Finite

namespace Heap

variable {α β : Type} {h h' h'' : Heap α} {p q x : Nat} {a : α} {ps qs : List Nat}

def set (h : Heap α) (p : Nat) (a : α) : Heap α where
  get := Function.update h.get p (some a)
  finite := by
    refine (h.finite.insert p).subset fun x hx => ?_
    by_cases hxp : x = p
    · exact .inl hxp
    · refine .inr fun hn => hx ?_
      rw [Function.update_of_ne hxp, hn]

def free (h : Heap α) (p : Nat) : Option (Heap α) :=
  if (h.get p).isSome then
    some {
      get := Function.update h.get p none
      finite := by
        refine h.finite.subset fun x hx hn => hx ?_
        by_cases hxp : x = p
        · rw [hxp, Function.update_self]
        · rw [Function.update_of_ne hxp, hn] }
  else none

/-- Which address the next block gets; one that is not in use. -/
structure Allocator (α : Type) where
  addr : Heap α → Nat
  fresh : ∀ h : Heap α, h.get (addr h) = none

theorem exists_fresh (h : Heap α) : ∃ p, h.get p = none := by
  obtain ⟨p, hp⟩ := h.finite.exists_notMem
  exact ⟨p, by simpa using hp⟩

instance : Nonempty (Allocator α) := by
  choose addr fresh using exists_fresh (α := α)
  exact ⟨addr, fresh⟩

def Allocator.alloc (A : Allocator α) (h : Heap α) (a : α) : Nat × Heap α := (A.addr h, h.set (A.addr h) a)

theorem get_set (h : Heap α) (p : Nat) (a : α) (x : Nat) : (h.set p a).get x = if x = p then some a else h.get x :=
  Function.update_apply ..

@[simp] theorem get_set_self (h : Heap α) (p : Nat) (a : α) : (h.set p a).get p = some a := by simp [get_set]

theorem get_set_ne (hx : x ≠ p) : (h.set p a).get x = h.get x := by simp [get_set, hx]

def Extends (h h' : Heap α) : Prop := ∀ x, h.get x ≠ none → h'.get x = h.get x

/-! ## Blocks that are freed -/

def Freed (h : Heap α) (ps : List Nat) (h' : Heap α) : Prop := ∀ x, h'.get x = if x ∈ ps then none else h.get x

theorem Freed.nil (h : Heap α) : Freed h [] h := fun x => by simp

theorem free_some (hp : h.get p ≠ none) : ∃ h', h.free p = some h' ∧ Freed h [p] h' := by
  refine ⟨_, if_pos (Option.isSome_iff_ne_none.mpr hp), fun x => ?_⟩
  simp only [List.mem_singleton]
  exact Function.update_apply ..

theorem Freed.append (hf : Freed h ps h') (hf' : Freed h' qs h'') : Freed h (ps ++ qs) h'' := by
  intro x
  rw [hf' x, hf x]
  by_cases hq : x ∈ qs
  · simp [hq]
  · by_cases hp : x ∈ ps
    · simp [hp]
    · simp [hp, hq]

theorem Freed.get_of_not_mem (hf : Freed h ps h') (hx : x ∉ ps) : h'.get x = h.get x := by rw [hf x, if_neg hx]

theorem Freed.free (hf : Freed h ps h') (hp : h.get p ≠ none) (hps : p ∉ ps) :
    ∃ h'', h'.free p = some h'' ∧ Freed h (ps ++ [p]) h'' := by
  obtain ⟨h'', hfree, hf'⟩ := free_some (hf.get_of_not_mem hps ▸ hp)
  exact ⟨h'', hfree, hf.append hf'⟩

/-! ## The number of blocks -/

noncomputable def count (h : Heap α) : Nat := {p | h.get p ≠ none}.ncard

theorem count_set (hp : h.get p = none) (a : α) : (h.set p a).count = h.count + 1 := by
  have hset : {x | (h.set p a).get x ≠ none} = insert p {x | h.get x ≠ none} := by
    ext x
    by_cases hx : x = p
    · simp [hx]
    · simp [get_set_ne hx, hx]
  rw [count, hset, Set.ncard_insert_of_notMem (by simp [hp]) h.finite, count]

theorem count_free (hf : h.free p = some h') : h'.count + 1 = h.count := by
  unfold free at hf
  split at hf
  · rename_i hp
    cases hf
    have hset : {x | Function.update h.get p none x ≠ none} = {x | h.get x ≠ none} \ {p} := by
      ext x
      by_cases hx : x = p <;> simp [hx]
    unfold count
    rw [hset]
    exact Set.ncard_sdiff_singleton_add_one (Option.isSome_iff_ne_none.mp hp) h.finite
  · cases hf

theorem count_congr (hsame : ∀ x, h'.get x = none ↔ h.get x = none) : h'.count = h.count := by
  unfold count
  congr 1
  ext x
  exact not_congr (hsame x)

theorem count_freed (hf : Freed h ps h') (hps : ps.Nodup) (hlive : ∀ p ∈ ps, h.get p ≠ none) :
    h'.count + ps.length = h.count := by
  have hset : {x | h'.get x ≠ none} = {x | h.get x ≠ none} \ {x | x ∈ ps} := by
    ext x
    by_cases hx : x ∈ ps <;> simp [hf x, hx]
  have hcard : {x | x ∈ ps}.ncard = ps.length := by
    rw [← List.toFinset_card_of_nodup hps, ← Set.ncard_coe_finset]
    congr 1
    ext x
    simp
  unfold count
  rw [hset, ← hcard]
  exact Set.ncard_sdiff_add_ncard_of_subset hlive h.finite

theorem free_set (hp : h.get p = none) (a : α) : (h.set p a).free p = some h := by
  have hback : Function.update (Function.update h.get p (some a)) p none = h.get := by
    rw [Function.update_idem, ← hp, Function.update_eq_self]
  obtain ⟨get, finite⟩ := h
  rw [free, if_pos (by simp)]
  congr 2

/-! ## Linked lists -/

variable {view : α → Option β} {next : β → Option Nat} {start : Option Nat} {l : List (Nat × β)} {b c : β}

inductive Linked (view : α → Option β) (next : β → Option Nat) (h : Heap α) : Option Nat → List (Nat × β) → Prop
  | nil : Linked view next h none []
  | cons {p : Nat} {a : α} {b : β} {l : List (Nat × β)} : h.get p = some a → view a = some b →
      Linked view next h (next b) l → Linked view next h (some p) ((p, b) :: l)

theorem Linked.mem (hl : Linked view next h start l) : ∀ x ∈ l, ∃ a, h.get x.1 = some a ∧ view a = some x.2 := by
  induction hl with
  | nil => exact nofun
  | cons hp hv _ ih => exact List.forall_mem_cons.mpr ⟨⟨_, hp, hv⟩, ih⟩

/-- A list is one of the heap if its blocks are there. -/
theorem Linked.frame (hl : Linked view next h start l) (hsame : ∀ x ∈ l, h'.get x.1 = h.get x.1) :
    Linked view next h' start l := by
  induction hl with
  | nil => exact .nil
  | cons hp hv _ ih =>
    obtain ⟨hhead, htail⟩ := List.forall_mem_cons.mp hsame
    exact .cons (hhead.trans hp) hv (ih htail)

theorem Linked.snoc {b' : β} {a' : α} (hl : Linked view next h start (l ++ [(p, b)]))
    (hsame : ∀ x ∈ l, h'.get x.1 = h.get x.1)
    (hp : h'.get p = some a) (hb : view a = some b') (hnext : next b' = some q)
    (hq : h'.get q = some a') (hc : view a' = some c) (hend : next c = none) :
    Linked view next h' start (l ++ [(p, b'), (q, c)]) := by
  induction l generalizing start with
  | nil =>
    cases hl with
    | cons => exact .cons hp hb (hnext ▸ .cons hq hc (hend ▸ .nil))
  | cons x l ih =>
    cases hl with
    | cons hx hv hl =>
      obtain ⟨hhead, htail⟩ := List.forall_mem_cons.mp hsame
      exact .cons (hhead.trans hx) hv (ih hl htail)

end Heap
