import BbsServer.Lib.Heap
import BbsServer.TotalSound

/-!
# Lists of files in memory

`db_get_files_data_db` builds a list of nodes with three strings each, and `clear_list` frees it. A list of any
nodes is freed exactly; one is built of any rows whose texts are not `NULL` (`lists_iff`).
-/

namespace BbsServer

open CStr Heap

structure FlNode where
  name : Option Nat
  description : Option Nat
  owner : Option Nat
  permissions : Int
  ownerId : Int
  hash : BitVec 32
  size : Nat
  id : Int
  next : Option Nat

inductive FlBlock
  | node (l : FlNode)
  | text (s : Bytes)

abbrev FlHeap := Heap FlBlock

def FlBlock.node? : FlBlock → Option FlNode
  | .node l => some l
  | .text _ => none

def FlBlock.text? : FlBlock → Option Bytes
  | .text s => some s
  | .node _ => none

def nodeAt (h : FlHeap) (p : Nat) : Option FlNode := (h.get p).bind FlBlock.node?

def textAt (h : FlHeap) (p : Nat) : Option Bytes := (h.get p).bind FlBlock.text?

def setNode (h : FlHeap) (p : Nat) (f : FlNode → FlNode) : Option FlHeap :=
  (nodeAt h p).map fun l => h.set p (.node (f l))

/-! ## `db_get_files_data_db` -/

structure FlList where
  start : Option Nat
  current : Option Nat

/-! The fields that are stored between two calls of `malloc`. -/

def FlNode.putIds (row : List Cell) (l : FlNode) : FlNode :=
  { l with next := none, id := columnInt row 0, ownerId := columnInt row 1 }

def FlNode.putName (row : List Cell) (name : Nat) (l : FlNode) : FlNode :=
  { l with name := some name, size := sizeT (columnInt64 row 3) }

def FlNode.putDescription (row : List Cell) (description : Nat) (l : FlNode) : FlNode :=
  { l with
    description := some description, permissions := toChar (columnInt row 5), hash := .ofInt 32 (columnInt row 6) }

def FlNode.putOwner (owner : Nat) (l : FlNode) : FlNode := { l with owner := some owner }

def newItem (A : Allocator FlBlock) (junk : FlHeap → FlNode) (row : List Cell)
    (h : FlHeap) : Option (Nat × FlHeap) := do
  let (item, h) := A.alloc h (.node (junk h))
  let h ← setNode h item (·.putIds row)
  let name ← columnText row 2
  let (p, h) := A.alloc h (.text name)
  let h ← setNode h item (·.putName row p)
  let description ← columnText row 4
  let (p, h) := A.alloc h (.text description)
  let h ← setNode h item (·.putDescription row p)
  let owner ← columnText row 7
  let (p, h) := A.alloc h (.text owner)
  let h ← setNode h item (·.putOwner p)
  some (item, h)

def linkItem (d : FlList) (item : Nat) (h : FlHeap) : Option (FlList × FlHeap) :=
  match d.start with
  | none => some (⟨some item, some item⟩, h)
  | some start => do
    let current ← d.current
    let h ← setNode h current fun l => { l with next := some item }
    some (⟨some start, some item⟩, h)

def dbGetFilesDataNode (A : Allocator FlBlock) (junk : FlHeap → FlNode) (row : List Cell) (d : FlList) (h : FlHeap) :
    Option (FlList × FlHeap) := do
  let (item, h) ← newItem A junk row h
  linkItem d item h

def buildList (A : Allocator FlBlock) (junk : FlHeap → FlNode) :
    List (List Cell) → FlList → FlHeap → Option (FlList × FlHeap)
  | [], d, h => some (d, h)
  | row :: rows, d, h => do
    let (d, h) ← dbGetFilesDataNode A junk row d h
    buildList A junk rows d h

/-! ## `clear_list` -/

structure Frees where
  heap : FlHeap
  freed : List Nat

def Frees.free (s : Frees) (p : Nat) : Option Frees := (s.heap.free p).map (⟨·, s.freed ++ [p]⟩)

def Frees.freeField (s : Frees) (curr : Nat) (field : FlNode → Option Nat) : Option Frees := do
  let l ← nodeAt s.heap curr
  match field l with
  | none => some s
  | some p => s.free p

def clearNode (s : Frees) (curr : Nat) : Option (Option Nat × Frees) := do
  let l ← nodeAt s.heap curr
  let s ← s.freeField curr (·.description)
  let s ← s.freeField curr (·.name)
  let s ← s.freeField curr (·.owner)
  let s ← s.free curr
  some (l.next, s)

def clearLoop : Nat → Frees → Nat → Option Frees
  | 0, _, _ => none
  | fuel + 1, s, curr => do
    let (next, s) ← clearNode s curr
    match next with
    | none => some s
    | some curr => clearLoop fuel s curr

/-- `clear_list`, for the values behind its arguments: what is behind them after it. -/
def clearList (fuel : Nat) (aStart aCurrent : Option (Option Nat)) (s : Frees) :
    Option (Option (Option Nat) × Option (Option Nat) × Frees) :=
  match aStart with
  | none => some (none, aCurrent, s)
  | some start => do
    let s ← match start with
      | none => some s
      | some curr => clearLoop fuel s curr
    some (some none, aCurrent.map fun _ => none, s)

/-! ## Lists -/

def FlNode.strings (l : FlNode) : List Nat := l.description.toList ++ l.name.toList ++ l.owner.toList

def flBlocks (x : Nat × FlNode) : List Nat := x.2.strings ++ [x.1]

/-- A list that ends with `NULL`, all of whose blocks are in use, and none is there twice. -/
structure OwnsList (h : FlHeap) (start : Option Nat) (nodes : List (Nat × FlNode)) : Prop where
  linked : Linked FlBlock.node? FlNode.next h start nodes
  texts : ∀ x ∈ nodes, ∀ p ∈ x.2.strings, (textAt h p).isSome
  nodup : (nodes.flatMap flBlocks).Nodup

/-- The node has what the columns of the row say, and `NULL` for a text that is `NULL`. -/
structure Carries (h : FlHeap) (row : List Cell) (l : FlNode) : Prop where
  name : l.name.map (textAt h) = (columnText row 2).map some
  description : l.description.map (textAt h) = (columnText row 4).map some
  owner : l.owner.map (textAt h) = (columnText row 7).map some
  permissions : l.permissions = toChar (columnInt row 5)
  ownerId : l.ownerId = columnInt row 1
  hash : l.hash = .ofInt 32 (columnInt row 6)
  size : l.size = sizeT (columnInt64 row 3)
  id : l.id = columnInt row 0

def Builds (rows : List (List Cell)) : Prop :=
  ∀ (A : Allocator FlBlock) junk (h : FlHeap) current, ∃ d h' nodes,
    buildList A junk rows ⟨none, current⟩ h = some (d, h') ∧ OwnsList h' d.start nodes ∧
    List.Forall₂ (fun row x => Carries h' row x.2) rows nodes

/-- Every block of a list is freed once and no other, and the pointers are `NULL` afterwards. -/
def Clears (h : FlHeap) (start : Option Nat) (nodes : List (Nat × FlNode)) : Prop :=
  ∀ fuel, nodes.length ≤ fuel → ∀ aCurrent freed, ∃ h',
    clearList fuel (some start) aCurrent ⟨h, freed⟩ =
      some (some none, aCurrent.map fun _ => none, ⟨h', freed ++ nodes.flatMap flBlocks⟩) ∧
    Heap.Freed h (nodes.flatMap flBlocks) h'

structure ListsExact (rows : List (List Cell)) : Prop where
  builds : Builds rows
  clears : ∀ h start nodes, OwnsList h start nodes → Clears h start nodes

def HasTexts (row : List Cell) : Prop := columnText row 2 ≠ none ∧ columnText row 4 ≠ none ∧ columnText row 7 ≠ none

section
variable {A : Allocator FlBlock} {junk : FlHeap → FlNode} {h h₁ h' : FlHeap} {p i curr : Nat} {l : FlNode} {s : Bytes}
  {f : FlNode → FlNode} {ps : List Nat} {start : Option Nat} {nodes : List (Nat × FlNode)} {row : List Cell}
  {rows : List (List Cell)} {d : FlList}

theorem get_of_nodeAt (hn : nodeAt h p = some l) : h.get p = some (.node l) := by
  obtain ⟨b, hb, hv⟩ := Option.bind_eq_some_iff.mp hn
  cases b with
  | node => cases hv; exact hb
  | text => cases hv

theorem get_of_textAt (ht : textAt h p = some s) : h.get p = some (.text s) := by
  obtain ⟨b, hb, hv⟩ := Option.bind_eq_some_iff.mp ht
  cases b with
  | node => cases hv
  | text => cases hv; exact hb

theorem nodeAt_of_get (hg : h.get p = some (.node l)) : nodeAt h p = some l := by rw [nodeAt, hg]; rfl

theorem textAt_of_get (hg : h.get p = some (.text s)) : textAt h p = some s := by rw [textAt, hg]; rfl

/-! ## Freeing -/

theorem Frees.free_spec (log : List Nat) (hf : Heap.Freed h ps h₁) (hp : h.get p ≠ none) (hps : p ∉ ps) :
    ∃ h', Frees.free ⟨h₁, log⟩ p = some ⟨h', log ++ [p]⟩ ∧ Heap.Freed h (ps ++ [p]) h' := by
  obtain ⟨h', hfree, hf'⟩ := hf.free hp hps
  exact ⟨h', congrArg (Option.map _) hfree, hf'⟩

theorem freeField_spec (log : List Nat) (field : FlNode → Option Nat) (hf : Heap.Freed h ps h₁)
    (hn : nodeAt h curr = some l) (hcurr : curr ∉ ps)
    (hlive : ∀ p ∈ (field l).toList, h.get p ≠ none ∧ p ∉ ps) :
    ∃ h', Frees.freeField ⟨h₁, log⟩ curr field = some ⟨h', log ++ (field l).toList⟩ ∧
      Heap.Freed h (ps ++ (field l).toList) h' := by
  have hn₁ : nodeAt h₁ curr = some l := nodeAt_of_get ((hf.get_of_not_mem hcurr).trans (get_of_nodeAt hn))
  simp only [Frees.freeField, hn₁, Option.bind_eq_bind, Option.bind_some]
  cases hfield : field l with
  | none => exact ⟨h₁, by simp, by simpa using hf⟩
  | some p =>
    obtain ⟨hp, hps⟩ := hlive p (by simp [hfield])
    exact Frees.free_spec log hf hp hps

theorem clearNode_spec (log : List Nat) (hn : nodeAt h curr = some l) (hlive : ∀ p ∈ l.strings, h.get p ≠ none)
    (hnodup : (flBlocks (curr, l)).Nodup) : ∃ h', clearNode ⟨h, log⟩ curr =
      some (l.next, ⟨h', log ++ flBlocks (curr, l)⟩) ∧ Heap.Freed h (flBlocks (curr, l)) h' := by
  obtain ⟨hstrings, -, hcurr⟩ := List.nodup_append.mp hnodup
  obtain ⟨hfirst, -, howner⟩ := List.nodup_append.mp hstrings
  obtain ⟨-, -, hname⟩ := List.nodup_append.mp hfirst
  have hlast : curr ∉ l.strings := fun hc => hcurr curr hc curr (List.mem_singleton_self _) rfl
  unfold FlNode.strings at hlive hlast
  simp only [List.mem_append, not_or] at hlive hlast
  obtain ⟨h₁, hrun₁, hf₁⟩ := freeField_spec log (·.description) (Heap.Freed.nil h) hn (by simp)
    fun p hp => ⟨hlive p (.inl (.inl hp)), by simp⟩
  obtain ⟨h₂, hrun₂, hf₂⟩ := freeField_spec (log ++ l.description.toList) (·.name) hf₁ hn (by simpa using hlast.1.1)
    fun p hp => ⟨hlive p (.inl (.inr hp)), fun hd => hname p (by simpa using hd) p hp rfl⟩
  obtain ⟨h₃, hrun₃, hf₃⟩ := freeField_spec (log ++ l.description.toList ++ l.name.toList) (·.owner) hf₂ hn
    (by simpa using hlast.1) fun p hp => ⟨hlive p (.inr hp), fun hd => howner p (by simpa using hd) p hp rfl⟩
  obtain ⟨h₄, hrun₄, hf₄⟩ := Frees.free_spec (log ++ l.description.toList ++ l.name.toList ++ l.owner.toList) hf₃
    (by rw [get_of_nodeAt hn]; simp) (by simpa [and_assoc] using hlast)
  refine ⟨h₄, ?_, by simpa [flBlocks, FlNode.strings] using hf₄⟩
  simp only [clearNode, hn, hrun₁, hrun₂, hrun₃, hrun₄, Option.bind_eq_bind, Option.bind_some]
  simp [flBlocks, FlNode.strings]

theorem OwnsList.tail {x : Nat × FlNode} (ho : OwnsList h start (x :: nodes)) (hf : Heap.Freed h (flBlocks x) h') :
    OwnsList h' x.2.next nodes := by
  obtain ⟨hl, ht, hn⟩ := ho
  obtain ⟨-, hrest, hapart⟩ := List.nodup_append.mp (List.flatMap_cons ▸ hn)
  have hkept : ∀ y ∈ nodes, ∀ p ∈ flBlocks y, h'.get p = h.get p := fun y hy p hp =>
    hf.get_of_not_mem fun hx => hapart p hx p (List.mem_flatMap.mpr ⟨y, hy, hp⟩) rfl
  refine ⟨?_, fun y hy p hp => ?_, hrest⟩
  · cases hl with
    | cons _ _ hl => exact hl.frame fun y hy => hkept y hy y.1 (by simp [flBlocks])
  · rw [textAt, hkept y hy p (List.mem_append_left _ hp)]
    exact ht y (List.mem_cons_of_mem _ hy) p hp

theorem clearLoop_spec {fuel : Nat} (log : List Nat) (ho : OwnsList h (some curr) nodes)
    (hfuel : nodes.length ≤ fuel) :
    ∃ h', clearLoop fuel ⟨h, log⟩ curr = some ⟨h', log ++ nodes.flatMap flBlocks⟩ ∧
      Heap.Freed h (nodes.flatMap flBlocks) h' := by
  induction nodes generalizing h curr fuel log with
  | nil => cases ho.linked
  | cons x nodes ih =>
    obtain ⟨fuel, rfl⟩ : ∃ k, fuel = k + 1 := ⟨fuel - 1, by rw [List.length_cons] at hfuel; omega⟩
    have hx : x.1 = curr ∧ nodeAt h curr = some x.2 := by
      cases ho.linked with
      | cons hp hv => exact ⟨rfl, by rw [nodeAt, hp]; exact hv⟩
    obtain ⟨rfl, hn⟩ := hx
    have hlive : ∀ p ∈ x.2.strings, h.get p ≠ none := by
      intro p hp hnone
      have := ho.texts x (List.mem_cons_self ..) p hp
      rw [textAt, hnone] at this
      cases this
    obtain ⟨h₁, hrun, hf⟩ := clearNode_spec log hn hlive
      (List.nodup_append.mp (List.flatMap_cons ▸ ho.nodup)).1
    have htail := ho.tail hf
    rw [clearLoop, hrun, List.flatMap_cons]
    dsimp only [Option.bind_eq_bind, Option.bind_some]
    cases hnext : x.2.next with
    | none =>
      have hnil : nodes = [] := by
        rw [hnext] at htail
        cases htail.linked
        rfl
      subst hnil
      exact ⟨h₁, by simp, by simpa using hf⟩
    | some q =>
      obtain ⟨h₂, hloop, hf'⟩ := ih (log ++ flBlocks x) (hnext ▸ htail) (Nat.le_of_succ_le_succ hfuel)
      exact ⟨h₂, hloop.trans (by rw [List.append_assoc]), hf.append hf'⟩

theorem clears (ho : OwnsList h start nodes) : Clears h start nodes := by
  intro fuel hfuel aCurrent freed
  unfold clearList
  cases start with
  | none =>
    cases ho.linked
    exact ⟨h, by simp, by simpa using Heap.Freed.nil h⟩
  | some curr =>
    obtain ⟨h', hrun, hf⟩ := clearLoop_spec freed ho hfuel
    exact ⟨h', by simp [hrun], hf⟩

/-! ## Building -/

theorem setNode_eq (hn : nodeAt h p = some l) : setNode h p f = some (h.set p (.node (f l))) := by
    rw [setNode, hn]; rfl

theorem addNode (h : FlHeap) (i : Nat) (junk : FlNode) (f : FlNode → FlNode) :
    ∃ h', setNode (h.set i (.node junk)) i f = some h' ∧ nodeAt h' i = some (f junk) ∧
    ∀ x ≠ i, h'.get x = h.get x := by
  refine ⟨_, setNode_eq (nodeAt_of_get (get_set_self ..)), nodeAt_of_get (get_set_self ..), fun x hx => ?_⟩
  rw [get_set_ne hx, get_set_ne hx]

theorem ne_of_textAt {q : Nat} (hq : h.get q = none) (hp : textAt h p = some s) : q ≠ p := by
  rintro rfl
  rw [get_of_textAt hp] at hq
  cases hq

theorem addText (hn : nodeAt h i = some l) (hp : h.get p = none) (s : Bytes) (f : FlNode → FlNode) :
    ∃ h', setNode (h.set p (.text s)) i f = some h' ∧ nodeAt h' i = some (f l) ∧ textAt h' p = some s ∧
      p ≠ i ∧ ∀ x ≠ i, x ≠ p → h'.get x = h.get x := by
  have hne : p ≠ i := by
    rintro rfl
    rw [get_of_nodeAt hn] at hp
    cases hp
  have hn' : nodeAt (h.set p (.text s)) i = some l := nodeAt_of_get ((get_set_ne hne.symm).trans (get_of_nodeAt hn))
  refine ⟨_, setNode_eq hn', nodeAt_of_get (get_set_self ..), textAt_of_get ?_, hne, fun x hx hx' => ?_⟩
  · rw [get_set_ne hne, get_set_self]
  · rw [get_set_ne hx, get_set_ne hx']

structure IsNew (h : FlHeap) (row : List Cell) (i : Nat) (l : FlNode) (h' : FlHeap) : Prop where
  node : nodeAt h' i = some l
  last : l.next = none
  carries : Carries h' row l
  texts : ∀ p ∈ l.strings, (textAt h' p).isSome
  nodup : (flBlocks (i, l)).Nodup
  fresh : ∀ p ∈ flBlocks (i, l), h.get p = none
  extends_ : Extends h h'

theorem newItem_spec (A : Allocator FlBlock) (junk : FlHeap → FlNode) (h : FlHeap) (ht : HasTexts row) :
    ∃ i l h', newItem A junk row h = some (i, h') ∧ IsNew h row i l h' := by
  obtain ⟨hname, hdesc, howner⟩ := ht
  obtain ⟨name, hname⟩ := Option.ne_none_iff_exists'.mp hname
  obtain ⟨desc, hdesc⟩ := Option.ne_none_iff_exists'.mp hdesc
  obtain ⟨owner, howner⟩ := Option.ne_none_iff_exists'.mp howner
  obtain ⟨h₁, hrun₁, hn₁, hk₁⟩ := addNode h (A.addr h) (junk h) (·.putIds row)
  obtain ⟨h₂, hrun₂, hn₂, hname₂, hne₂, hk₂⟩ := addText hn₁ (A.fresh h₁) name (·.putName row (A.addr h₁))
  obtain ⟨h₃, hrun₃, hn₃, hdesc₃, hne₃, hk₃⟩ := addText hn₂ (A.fresh h₂) desc (·.putDescription row (A.addr h₂))
  obtain ⟨h₄, hrun₄, hn₄, howner₄, hne₄, hk₄⟩ := addText hn₃ (A.fresh h₃) owner (·.putOwner (A.addr h₃))
  have hrun : newItem A junk row h = some (A.addr h, h₄) := by
    simp only [newItem, Allocator.alloc, hname, hdesc, howner, hrun₁, hrun₂, hrun₃, hrun₄, Option.bind_eq_bind,
      Option.bind_some]
  refine ⟨A.addr h, ((((junk h).putIds row).putName row (A.addr h₁)).putDescription row (A.addr h₂)).putOwner (A.addr h₃),
    h₄, hrun, ?_⟩
  have hi := A.fresh h
  have hp := A.fresh h₁
  have hq := A.fresh h₂
  have hr := A.fresh h₃
  clear hrun hrun₁ hrun₂ hrun₃ hrun₄
  generalize A.addr h = i at *
  generalize A.addr h₁ = p at *
  generalize A.addr h₂ = q at *
  generalize A.addr h₃ = r at *
  -- each block is in use when the next one is allocated
  have hqp : q ≠ p := ne_of_textAt hq hname₂
  have hname₃ : textAt h₃ p = some name := by rw [textAt, hk₃ p hne₂ hqp.symm]; exact hname₂
  have hrp : r ≠ p := ne_of_textAt hr hname₃
  have hrq : r ≠ q := ne_of_textAt hr hdesc₃
  have hname₄ : textAt h₄ p = some name := by rw [textAt, hk₄ p hne₂ hrp.symm]; exact hname₃
  have hdesc₄ : textAt h₄ q = some desc := by rw [textAt, hk₄ q hne₃ hrq.symm]; exact hdesc₃
  have hp₀ : h.get p = none := by rw [← hk₁ p hne₂, hp]
  have hq₀ : h.get q = none := by rw [← hk₁ q hne₃, ← hk₂ q hne₃ hqp, hq]
  have hr₀ : h.get r = none := by rw [← hk₁ r hne₄, ← hk₂ r hne₄ hrp, ← hk₃ r hne₄ hrq, hr]
  have hstrings : (((((junk h).putIds row).putName row p).putDescription row q).putOwner r).strings = [q, p, r] := rfl
  have hblocks : flBlocks (i, ((((junk h).putIds row).putName row p).putDescription row q).putOwner r) = [q, p,
    r, i] := rfl
  constructor
  · exact hn₄
  · rfl
  · exact ⟨by rw [hname]; exact congrArg some hname₄, by rw [hdesc]; exact congrArg some hdesc₄,
      by rw [howner]; exact congrArg some howner₄, rfl, rfl, rfl, rfl, rfl⟩
  · intro x hx
    rw [hstrings] at hx
    rcases (by simpa using hx : x = q ∨ x = p ∨ x = r) with rfl | rfl | rfl
    · rw [hdesc₄]; rfl
    · rw [hname₄]; rfl
    · rw [howner₄]; rfl
  · rw [hblocks]
    simp [hqp, hrq.symm, hne₃, hrp.symm, hne₂, hne₄]
  · intro x hx
    rw [hblocks] at hx
    rcases (by simpa using hx : x = q ∨ x = p ∨ x = r ∨ x = i) with rfl | rfl | rfl | rfl
    · exact hq₀
    · exact hp₀
    · exact hr₀
    · exact hi
  · intro x hx
    have hne : ∀ y, h.get y = none → x ≠ y := by
      rintro y hy rfl
      exact hx hy
    rw [hk₄ x (hne i hi) (hne r hr₀), hk₃ x (hne i hi) (hne q hq₀), hk₂ x (hne i hi) (hne p hp₀), hk₁ x (hne i hi)]

theorem newItem_hasTexts {r : Nat × FlHeap} (hr : newItem A junk row h = some r) : HasTexts row := by
  unfold newItem at hr
  simp only [Option.bind_eq_bind, Option.bind_eq_some_iff] at hr
  obtain ⟨h₁, -, name, hname, h₂, -, desc, hdesc, h₃, -, owner, howner, -⟩ := hr
  exact ⟨by simp [hname], by simp [hdesc], by simp [howner]⟩

structure Building (d : FlList) (h : FlHeap) (nodes : List (Nat × FlNode)) (rows : List (List Cell)) : Prop where
  owns : OwnsList h d.start nodes
  current : ∀ x ∈ nodes.getLast?, d.current = some x.1
  carries : List.Forall₂ (fun row x => Carries h row x.2) rows nodes

theorem Carries.frame (hc : Carries h row l) (ht : ∀ p ∈ l.strings, textAt h' p = textAt h p) : Carries h' row l := by
  have hmap : ∀ q : Option Nat, (∀ p ∈ q.toList, p ∈ l.strings) → q.map (textAt h') = q.map (textAt h) := by
    intro q hq
    cases q with
    | none => rfl
    | some p => exact congrArg some (ht p (hq p (by simp)))
  unfold FlNode.strings at hmap
  simp only [List.mem_append] at hmap
  refine { hc with name := ?_, description := ?_, owner := ?_ }
  · rw [hmap l.name fun p hp => .inl (.inr hp), hc.name]
  · rw [hmap l.description fun p hp => .inl (.inl hp), hc.description]
  · rw [hmap l.owner fun p hp => .inr hp, hc.owner]

theorem OwnsList.live (ho : OwnsList h start nodes) : ∀ p ∈ nodes.flatMap flBlocks, h.get p ≠ none := by
  intro p hp
  obtain ⟨x, hx, hp⟩ := List.mem_flatMap.mp hp
  rcases List.mem_append.mp hp with hp | hp
  · intro hnone
    have := ho.texts x hx p hp
    rw [textAt, hnone] at this
    cases this
  · obtain ⟨a, ha, -⟩ := ho.linked.mem x hx
    rw [List.mem_singleton.mp hp, ha]
    simp

/-! The last node of a list is linked to a new one. -/

section
variable {init : List (Nat × FlNode)} {c x : Nat} {m n : FlNode} (hm : nodeAt h c = some m)
  (hnew : IsNew h row i l h₁)
include hnew

theorem IsNew.kept (hx : x ≠ c) (hne : h.get x ≠ none) : (h₁.set c (.node n)).get x = h.get x := by
  rw [get_set_ne hx, hnew.extends_ x hne]

include hm

theorem IsNew.get_block (hx : x ∈ flBlocks (i, l)) : (h₁.set c (.node n)).get x = h₁.get x := by
  apply get_set_ne
  rintro rfl
  have hnone := hnew.fresh x hx
  rw [get_of_nodeAt hm] at hnone
  cases hnone

theorem IsNew.textAt_old (hp : (textAt h p).isSome) : textAt (h₁.set c (.node n)) p = textAt h p := by
  obtain ⟨t, ht⟩ := Option.isSome_iff_exists.mp hp
  have hg := get_of_textAt ht
  rw [textAt, textAt, hnew.kept _ (by rw [hg]; simp)]
  rintro rfl
  rw [get_of_nodeAt hm] at hg
  cases hg

theorem IsNew.textAt_new (hp : p ∈ l.strings) : textAt (h₁.set c (.node n)) p = textAt h₁ p := by
  rw [textAt, textAt, hnew.get_block hm (List.mem_append_left _ hp)]

theorem IsNew.linked (ho : OwnsList h start (init ++ [(c, m)])) :
    Linked FlBlock.node? FlNode.next (h₁.set c (.node { m with next := some i })) start
      (init ++ [(c, { m with next := some i }), (i, l)]) := by
  have hn := ho.nodup
  have hlive := ho.live
  rw [List.flatMap_append, List.flatMap_singleton] at hn hlive
  obtain ⟨-, -, hapart⟩ := List.nodup_append.mp hn
  refine ho.linked.snoc (fun x hx => hnew.kept ?_ ?_) (get_set_self ..) rfl rfl
    ((hnew.get_block hm (by simp [flBlocks])).trans (get_of_nodeAt hnew.node)) rfl hnew.last
  · exact hapart x.1 (List.mem_flatMap.mpr ⟨x, hx, by simp [flBlocks]⟩) c (by simp [flBlocks])
  · exact hlive x.1 (List.mem_append_left _ (List.mem_flatMap.mpr ⟨x, hx, by simp [flBlocks]⟩))

theorem IsNew.owns (ho : OwnsList h start (init ++ [(c, m)])) :
    OwnsList (h₁.set c (.node { m with next := some i })) start (init ++ [(c, { m with next := some i }), (i, l)]) := by
  refine ⟨hnew.linked hm ho, ?_, ?_⟩
  · intro x hx p hp
    rcases (by simpa using hx : x ∈ init ∨ x = (c, { m with next := some i }) ∨ x = (i, l)) with hx | rfl | rfl
    · have hsome := ho.texts x (List.mem_append_left _ hx) p hp
      rwa [hnew.textAt_old hm hsome]
    · have hsome := ho.texts (c, m) (by simp) p hp
      rwa [hnew.textAt_old hm hsome]
    · rw [hnew.textAt_new hm hp]
      exact hnew.texts p hp
  · have hblocks : (init ++ [(c, { m with next := some i }), (i, l)]).flatMap flBlocks =
        (init ++ [(c, m)]).flatMap flBlocks ++ flBlocks (i, l) := by
      simp [flBlocks, FlNode.strings]
    rw [hblocks]
    refine List.nodup_append.mpr ⟨ho.nodup, hnew.nodup, ?_⟩
    rintro x hx y hy rfl
    exact ho.live x hx (hnew.fresh x hy)

theorem IsNew.carry (ho : OwnsList h start (init ++ [(c, m)]))
    (hcar : List.Forall₂ (fun row x => Carries h row x.2) rows (init ++ [(c, m)])) :
    List.Forall₂ (fun row x => Carries (h₁.set c (.node { m with next := some i })) row x.2) (rows ++ [row])
      (init ++ [(c, { m with next := some i }), (i, l)]) := by
  generalize hset : h₁.set c (.node { m with next := some i }) = h'
  have hcar' : List.Forall₂ (fun row x => Carries h' row x.2) rows (init ++ [(c, m)]) := by
    refine List.forall₂_iff_zip.mpr ⟨hcar.length_eq, fun {r x} hx => ?_⟩
    refine (List.forall₂_zip hcar hx).frame fun p hp => ?_
    rw [← hset, hnew.textAt_old hm (ho.texts x (List.of_mem_zip hx).2 p hp)]
  have hnew' : Carries h' row l := hnew.carries.frame fun p hp => by rw [← hset, hnew.textAt_new hm hp]
  have hfirst := List.forall₂_take_append rows init _ hcar'
  have hlast := List.forall₂_drop_append rows init _ hcar'
  rw [← List.take_append_drop init.length rows]
  generalize rows.take init.length = rows₁ at hfirst
  generalize rows.drop init.length = rows₂ at hlast
  obtain ⟨r, rest, hr, hrest, rfl⟩ := List.forall₂_cons_right_iff.mp hlast
  obtain rfl := List.forall₂_nil_right_iff.mp hrest
  rw [List.append_assoc]
  exact List.rel_append hfirst (.cons { hr with } (.cons hnew' .nil))

end

theorem OwnsList.start_eq_none (ho : OwnsList h start []) : start = none := by
  cases ho.linked
  rfl

theorem OwnsList.start_ne_none {init : List (Nat × FlNode)} {x : Nat × FlNode} (ho : OwnsList h start (init ++ [x])) :
    ∃ q, start = some q := by
  cases start with
  | none => cases init <;> cases ho.linked
  | some q => exact ⟨q, rfl⟩

theorem dbGetFilesDataNode_spec (A : Allocator FlBlock) (junk : FlHeap → FlNode) (hb : Building d h nodes rows)
    (ht : HasTexts row) : ∃ d' h' nodes', dbGetFilesDataNode A junk row d h = some (d', h') ∧
      Building d' h' nodes' (rows ++ [row]) := by
  obtain ⟨i, l, h₁, hrun, hnew⟩ := newItem_spec A junk h ht
  obtain ⟨ho, hcur, hcar⟩ := hb
  rw [dbGetFilesDataNode, hrun]
  dsimp only [Option.bind_eq_bind, Option.bind_some]
  rcases List.eq_nil_or_concat nodes with rfl | ⟨init, ⟨c, m⟩, rfl⟩
  · -- the first row
    obtain rfl := List.forall₂_nil_right_iff.mp hcar
    refine ⟨_, _, [(i, l)], by rw [linkItem, ho.start_eq_none], ⟨⟨?_, ?_, ?_⟩, ?_, ?_⟩⟩
    · exact .cons (get_of_nodeAt hnew.node) rfl (hnew.last ▸ .nil)
    · simpa using hnew.texts
    · simpa using hnew.nodup
    · simp
    · exact .cons hnew.carries .nil
  · rw [List.concat_eq_append] at ho hcur hcar
    obtain ⟨start, hstart⟩ := ho.start_ne_none
    have hlast : d.current = some c := hcur (c, m) (by simp)
    have hm : nodeAt h c = some m := by
      obtain ⟨a, ha, hv⟩ := ho.linked.mem (c, m) (by simp)
      rw [nodeAt, ha]
      exact hv
    have hm₁ : nodeAt h₁ c = some m := by
      rw [nodeAt, hnew.extends_ c (by rw [get_of_nodeAt hm]; simp)]
      exact hm
    refine ⟨⟨some start, some i⟩, h₁.set c (.node { m with next := some i }),
      init ++ [(c, { m with next := some i }),
        (i, l)], ?_, hnew.owns hm (hstart ▸ ho), by simp, hnew.carry hm ho hcar⟩
    simp only [linkItem, hstart, hlast, setNode_eq hm₁, Option.bind_eq_bind, Option.bind_some]

theorem buildList_spec (A : Allocator FlBlock) (junk : FlHeap → FlNode) {done : List (List Cell)}
    (hb : Building d h nodes done) (ht : ∀ row ∈ rows, HasTexts row) :
    ∃ d' h' nodes', buildList A junk rows d h = some (d', h') ∧ Building d' h' nodes' (done ++ rows) := by
  induction rows generalizing d h nodes done with
  | nil => exact ⟨d, h, nodes, rfl, by rwa [List.append_nil]⟩
  | cons row rows ih =>
    obtain ⟨hrow, hrows⟩ := List.forall_mem_cons.mp ht
    obtain ⟨d₁, h₁, nodes₁, hrun, hb₁⟩ := dbGetFilesDataNode_spec A junk hb hrow
    obtain ⟨d₂, h₂, nodes₂, hrun', hb₂⟩ := ih hb₁ hrows
    refine ⟨d₂, h₂, nodes₂, ?_, by rwa [List.append_assoc] at hb₂⟩
    simp only [buildList, hrun, hrun', Option.bind_eq_bind, Option.bind_some]

theorem buildList_hasTexts {r : FlList × FlHeap} (hr : buildList A junk rows d h = some r) :
    ∀ row ∈ rows, HasTexts row := by
  induction rows generalizing d h with
  | nil => exact nofun
  | cons row rows ih =>
    obtain ⟨⟨d₁, h₁⟩, hrow, hr⟩ := Option.bind_eq_some_iff.mp hr
    obtain ⟨⟨i, h₂⟩, hitem, -⟩ := Option.bind_eq_some_iff.mp hrow
    exact List.forall_mem_cons.mpr ⟨newItem_hasTexts hitem, ih hr⟩

theorem builds_iff : Builds rows ↔ ∀ row ∈ rows, HasTexts row := by
  constructor
  · intro h
    obtain ⟨A⟩ : Nonempty (Allocator FlBlock) := inferInstance
    obtain ⟨d, h', nodes, hrun, -⟩ := h A (fun _ => ⟨none, none, none, 0, 0, 0, 0, 0, none⟩) ⟨fun _ => none,
      by simp⟩ none
    exact buildList_hasTexts hrun
  · intro ht A junk h current
    have hb : Building ⟨none, current⟩ h [] [] := ⟨⟨.nil, nofun, List.nodup_nil⟩, nofun, .nil⟩
    obtain ⟨d, h', nodes, hrun, hb'⟩ := buildList_spec A junk hb ht
    exact ⟨d, h', nodes, hrun, hb'.owns, hb'.carries⟩

theorem dbGetFilesDataStmt_node {list : List FlItem} (hc : Carries h row l) {name description owner : Bytes}
    (hname : l.name.map (textAt h) = some (some name))
    (hdesc : l.description.map (textAt h) = some (some description))
    (howner : l.owner.map (textAt h) = some (some owner)) : dbGetFilesDataStmt row list = .ok (.dbSuccess, list ++ [{
      name, description, owner, permissions := l.permissions, ownerId := l.ownerId, hash := l.hash, size := l.size,
      id := l.id }]) := by
  have htext : ∀ {i : Nat} {s : Bytes}, (columnText row i).map some = some (some s) → columnText row i = some s := by
    intro i s hs
    simpa using hs
  have hname' := htext (hc.name ▸ hname)
  have hdesc' := htext (hc.description ▸ hdesc)
  have howner' := htext (hc.owner ▸ howner)
  rw [dbGetFilesDataStmt, hname', hdesc', howner', hc.permissions, hc.ownerId, hc.hash, hc.size, hc.id]
  rfl

end

/-- **Lists of files.** -/
theorem lists_iff (rows : List (List Cell)) : ListsExact rows ↔ ∀ row ∈ rows, HasTexts row :=
  ⟨fun h => builds_iff.mp h.builds, fun h => ⟨builds_iff.mpr h, fun _ _ _ => clears⟩⟩

/-- A row without a description: `strlen(NULL)`. -/
theorem no_description : ¬ ListsExact [[.integer 1, .integer 1, .text (ascii "a"), .integer 1, .null, .integer 0, .integer 7,
    .text (ascii "bob")]] := fun h => (builds_iff.mp h.builds _ (List.mem_singleton_self _)).2.1 rfl

end BbsServer
