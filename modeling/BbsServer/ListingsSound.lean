import Mathlib.Algebra.BigOperators.Group.Finset.Basic
import BbsServer.Listings

/-!
# The lists of all sessions

Every listing is written as the table has it. `file_list` clears a list that is not there, and puts a new one in
the place of the old one, which nothing points to any more; the same happens to a name. Nothing else is lost, and
no block is freed twice or used after it is freed (`listings_accounted`).
-/

namespace BbsServer

open CStr Heap Function

/-! ## The account -/

def rowItem (row : List Cell) : Option FlItem := do
  let name ← columnText row 2
  let description ← columnText row 4
  let owner ← columnText row 7
  some { name, description, owner, permissions := toChar (columnInt row 5), ownerId := columnInt row 1,
         hash := .ofInt 32 (columnInt row 6), size := sizeT (columnInt64 row 3), id := columnInt row 0 }

/-- The name and the number of items that a session holds, and the number of blocks that are lost. -/
structure FlLedger where
  held : Nat → Option (Option Bytes × Nat)
  lost : Nat

def FlLedger.empty : FlLedger := ⟨fun _ => none, 0⟩

def blocksHeld : Option (Option Bytes × Nat) → Nat
  | none => 0
  | some (uname, items) => uname.toList.length + 4 * items

def listed (args : FileListArgs) (rows : List (List Cell)) (fullCount : Int) (uname : Option Bytes) : Option Bytes :=
  if args.limit = 0 ∨ rows.any (fun row => (rowItem row).isNone) then none
  else if rows = [] then some (pageInfo args.page args.limit (toInt rows.length) fullCount)
  else
    uname.bind fun uname =>
      if ((rows.filterMap rowItem).filter (fileListed uname)).all fun it => (itemH it).length < 256 then
        some (fileListText uname args (rows.filterMap rowItem, toInt rows.length, fullCount))
      else none

def FlLedger.call (g : FlLedger) : FlCall → Option (List (Nat × Bytes) × FlLedger)
  | .acceptClient i =>
    if g.held i = none ∧ i < maxConnections then some ([], { g with held := update g.held i (some (none, 0)) }) else none
  | .setUname i uname => do
    let (old, items) ← g.held i
    some ([], { held := update g.held i (some (some uname, items)), lost := g.lost + old.toList.length })
  | .fileList i args rows fullCount => do
    let (uname, items) ← g.held i
    let text ← listed args rows fullCount uname
    if rows = [] then some ([(i, text)], g)
    else some ([(i, text)], { held := update g.held i (some (uname, rows.length)), lost := g.lost + 4 * items })
  | .closeSession i => do
    let _ ← g.held i
    some ([], { g with held := update g.held i none })

def FlLedger.calls (g : FlLedger) : List FlCall → Option (List (Nat × Bytes) × FlLedger)
  | [] => some ([], g)
  | c :: cs => do
    let (sent, g) ← g.call c
    let (more, g) ← g.calls cs
    some (sent ++ more, g)

/-! ## What holds -/

/-- Some of the texts `ps` have been written over. -/
def Retexted (ps : List Nat) (h h' : FlHeap) : Prop :=
  ∀ x, h'.get x = h.get x ∨ x ∈ ps ∧ (textAt h x).isSome ∧ (textAt h' x).isSome

structure Grown (h₀ : FlHeap) (d : FlList) (h : FlHeap) (nodes : List (Nat × FlNode)) (rows : List (List Cell)) :
    Prop where
  building : Building d h nodes rows
  extends_ : Extends h₀ h
  fresh : ∀ p ∈ nodes.flatMap flBlocks, h₀.get p = none
  count : h.count = h₀.count + (nodes.flatMap flBlocks).length
  length : (nodes.flatMap flBlocks).length = 4 * rows.length

def FlSession.blocks (s : FlSession) (nodes : List (Nat × FlNode)) : List Nat :=
  s.uname.toList ++ nodes.flatMap flBlocks

structure FlSession.Holds (fuel : Nat) (h : FlHeap) (s : FlSession) (nodes : List (Nat × FlNode))
    (uname : Option Bytes) (items : Nat) : Prop where
  uname : s.uname.map (textAt h) = uname.map some
  list : OwnsList h s.flStart nodes
  short : nodes.length ≤ fuel
  length : (nodes.flatMap flBlocks).length = 4 * items
  nodup : (s.blocks nodes).Nodup

section
variable {A : Allocator FlBlock} {junk : FlHeap → FlNode} {h h₀ h₁ h' h'' : FlHeap} {ps qs : List Nat}
  {p x curr fuel : Nat}
  {l : FlNode} {u : Bytes} {s : FlSession} {start : Option Nat} {nodes : List (Nat × FlNode)} {row : List Cell}
  {rows : List (List Cell)} {it : FlItem} {d : FlList}

/-! ## Texts that are written over -/

theorem Retexted.refl (ps : List Nat) (h : FlHeap) : Retexted ps h h := fun _ => .inl rfl

theorem Retexted.nodeAt (hr : Retexted ps h h') (hn : BbsServer.nodeAt h p = some l) :
    BbsServer.nodeAt h' p = some l := by
  rcases hr p with he | ⟨-, ht, -⟩
  · rw [BbsServer.nodeAt, he]
    exact hn
  · obtain ⟨t, ht⟩ := Option.isSome_iff_exists.mp ht
    have := (get_of_nodeAt hn).symm.trans (get_of_textAt ht)
    cases this

theorem Retexted.text (hr : Retexted ps h h') (ht : (textAt h p).isSome) : (textAt h' p).isSome := by
  rcases hr p with he | ⟨-, -, ht'⟩
  · rw [textAt, he]
    exact ht
  · exact ht'

theorem Retexted.elsewhere (hr : Retexted ps h h') (hx : x ∉ ps) : h'.get x = h.get x :=
  (hr x).resolve_right fun h => hx h.1

theorem Retexted.append (hr : Retexted ps h h') (hr' : Retexted qs h' h'') : Retexted (ps ++ qs) h h'' := by
  intro x
  rcases hr x with he | ⟨hx, ht, ht'⟩
  · rcases hr' x with he' | ⟨hx, ht, ht'⟩
    · exact .inl (he'.trans he)
    · refine .inr ⟨List.mem_append_right _ hx, ?_, ht'⟩
      rw [textAt, ← he]
      exact ht
  · exact .inr ⟨List.mem_append_left _ hx, ht, hr'.text ht'⟩

theorem Retexted.mono (hr : Retexted ps h h') (hps : ps ⊆ qs) : Retexted qs h h' :=
  fun x => (hr x).imp id fun hx => ⟨hps hx.1, hx.2⟩

theorem get_ne_none_of_text (ht : (textAt h p).isSome) : h.get p ≠ none := by
  intro hn
  rw [textAt, hn] at ht
  cases ht

theorem Retexted.count (hr : Retexted ps h h') : h'.count = h.count := by
  apply count_congr
  intro x
  rcases hr x with he | ⟨-, ht, ht'⟩
  · rw [he]
  · exact iff_of_false (get_ne_none_of_text ht') (get_ne_none_of_text ht)

theorem Retexted.owns (hr : Retexted ps h h') (ho : OwnsList h start nodes) : OwnsList h' start nodes := by
  refine ⟨ho.linked.frame fun x hx => ?_, fun x hx p hp => hr.text (ho.texts x hx p hp), ho.nodup⟩
  obtain ⟨a, ha, hv⟩ := ho.linked.mem x hx
  have hn : BbsServer.nodeAt h x.1 = some x.2 := by
    rw [BbsServer.nodeAt, ha]
    exact hv
  rw [get_of_nodeAt (hr.nodeAt hn), get_of_nodeAt hn]

theorem OwnsList.frame (ho : OwnsList h start nodes) (hsame : ∀ p ∈ nodes.flatMap flBlocks, h'.get p = h.get p) :
    OwnsList h' start nodes := by
  have hblock : ∀ x ∈ nodes, ∀ p ∈ flBlocks x, h'.get p = h.get p := fun x hx p hp =>
    hsame p (List.mem_flatMap.mpr ⟨x, hx, hp⟩)
  refine ⟨ho.linked.frame fun x hx => hblock x hx x.1 (by simp [flBlocks]), fun x hx p hp => ?_, ho.nodup⟩
  rw [textAt, hblock x hx p (List.mem_append_left _ hp)]
  exact ho.texts x hx p hp

/-! ## One item -/

theorem bind_textAt {q : Option Nat} {t : Option Bytes} {b : Bytes} (hq : q.map (textAt h) = t.map some)
    (ht : t = some b) :
    ∃ p, q = some p ∧ textAt h p = some b := by
  subst ht
  obtain ⟨p, hp, ht⟩ := Option.map_eq_some_iff.mp hq
  exact ⟨p, hp, ht⟩

theorem rowItem_some (hi : rowItem row = some it) :
    columnText row 2 = some it.name ∧ columnText row 4 = some it.description ∧
    columnText row 7 = some it.owner ∧ it.permissions = toChar (columnInt row 5) ∧
    it.size = sizeT (columnInt64 row 3) := by
  unfold rowItem at hi
  simp only [Option.bind_eq_bind, Option.bind_eq_some_iff, Option.some.injEq] at hi
  obtain ⟨name, hname, description, hdesc, owner, howner, rfl⟩ := hi
  exact ⟨hname, hdesc, howner, rfl, rfl⟩

theorem showItem_spec (hn : nodeAt h curr = some l) (hc : Carries h row l) (hi : rowItem row = some it)
    (hfit : fileListed u it → (itemH it).length < 256) : ∃ current h',
      showItem A u s curr h = some (if fileListed u it then fullStr it else [], { s with flCurrent := current }, h') ∧
      Retexted l.strings h h' := by
  obtain ⟨hname, hdesc, howner, hperm, hsize⟩ := rowItem_some hi
  obtain ⟨p, hp, hpt⟩ := bind_textAt hc.name hname
  obtain ⟨q, hq, hqt⟩ := bind_textAt hc.description hdesc
  obtain ⟨r, hr, hrt⟩ := bind_textAt hc.owner howner
  have hskip : (!strncmpZero it.owner u u.length && l.permissions == 0) = !fileListed u it := by
    rw [fileListed, hc.permissions, ← hperm, Bool.not_or, bne, Bool.not_not]
  unfold showItem
  simp only [hn, hr, hrt, hskip, Option.bind_eq_bind, Option.bind_some]
  by_cases hl : fileListed u it
  · have hlen := hfit hl
    rw [itemH, hsize, ← hc.size] at hlen
    simp only [hl, hp, hpt, hq, hqt, Bool.not_true, Bool.false_eq_true, if_false, if_true, Option.bind_some]
    rw [if_neg (by omega)]
    generalize htext : it.description.map (fun c => if c = nl then 7 else c) = text
    have hfresh := A.fresh (h.set q (.text text))
    refine ⟨some curr, h.set q (.text text), ?_, fun x => ?_⟩
    · simp only [Allocator.alloc, textAt_of_get (get_set_self ..), free_set hfresh, Option.bind_some]
      rw [fullStr, itemH, hsize, ← hc.size, htext]
    · by_cases hx : x = q
      · subst hx
        refine .inr ⟨by simp [FlNode.strings, hq], by rw [hqt]; rfl, ?_⟩
        rw [textAt_of_get (get_set_self ..)]
        rfl
      · exact .inl (get_set_ne hx)
  · rw [Bool.not_eq_true] at hl
    simp only [hl, Bool.not_false, if_true, Bool.false_eq_true, if_false]
    exact ⟨s.flCurrent, h, rfl, .refl _ h⟩

/-! ## The loop -/

def shown (u : Bytes) (rows : List (List Cell)) : List FlItem := (rows.filterMap rowItem).filter (fileListed u)

theorem shown_cons (hi : rowItem row = some it) :
    shown u (row :: rows) = (if fileListed u it then [it] else []) ++ shown u rows := by
  unfold shown
  rw [List.filterMap_cons_some hi, List.filter_cons]
  split <;> simp [*]

theorem nodeAt_head {y : Nat × FlNode} (ho : OwnsList h (some curr) (y :: nodes)) :
    y.1 = curr ∧ nodeAt h curr = some y.2 ∧ Linked FlBlock.node? FlNode.next h y.2.next nodes := by
  cases ho.linked with
  | cons hp hv hl => exact ⟨rfl, by rw [nodeAt, hp]; exact hv, hl⟩

theorem showLoop_spec (ho : OwnsList h (some curr) nodes)
    (hc : List.Forall₂ (fun row y => Carries h row y.2) rows nodes)
    (hi : ∀ row ∈ rows, rowItem row ≠ none) (hfit : ∀ it ∈ shown u rows, (itemH it).length < 256)
    (hfuel : nodes.length ≤ fuel) : ∃ current h',
      showLoop A u fuel s curr h = some (((shown u rows).map fullStr).flatten, { s with flCurrent := current }, h') ∧
      Retexted (nodes.flatMap flBlocks) h h' := by
  induction nodes generalizing h curr fuel rows s with
  | nil => cases ho.linked
  | cons y nodes ih =>
    obtain ⟨fuel, rfl⟩ : ∃ k, fuel = k + 1 := ⟨fuel - 1, by rw [List.length_cons] at hfuel; omega⟩
    obtain ⟨row, rows', hrow, hrest, rfl⟩ := List.forall₂_cons_right_iff.mp hc
    obtain ⟨hne, hi⟩ := List.forall_mem_cons.mp hi
    obtain ⟨it, hit⟩ := Option.ne_none_iff_exists'.mp hne
    rw [shown_cons hit] at hfit ⊢
    obtain ⟨rfl, hn, -⟩ := nodeAt_head ho
    obtain ⟨current, h₁, hrun, hr⟩ := showItem_spec (A := A) (s := s) hn hrow hit
      fun hl => hfit it (List.mem_append_left _ (by rw [if_pos hl]; exact List.mem_singleton_self it))
    obtain ⟨-, -, hapart⟩ := List.nodup_append.mp (List.flatMap_cons ▸ ho.nodup)
    have hstrings : Retexted (flBlocks y) h h₁ := hr.mono (List.subset_append_left _ _)
    have htext : ∀ z ∈ nodes, ∀ p ∈ z.2.strings, textAt h₁ p = textAt h p := by
      intro z hz p hp
      have hne : p ∉ flBlocks y := fun hy =>
        hapart p hy p (List.mem_flatMap.mpr ⟨z, hz, List.mem_append_left _ hp⟩) rfl
      rw [textAt, textAt, hstrings.elsewhere hne]
    have hcar : List.Forall₂ (fun row y => Carries h₁ row y.2) rows' nodes := by
      refine List.forall₂_iff_zip.mpr ⟨hrest.length_eq, fun {r z} hz => ?_⟩
      exact (List.forall₂_zip hrest hz).frame fun p hp => htext z (List.of_mem_zip hz).2 p hp
    have hmap : (((if fileListed u it then [it] else []) ++ shown u rows').map fullStr).flatten =
        (if fileListed u it then fullStr it else []) ++ ((shown u rows').map fullStr).flatten := by
      split <;> simp
    have ho₁ := hstrings.owns ho
    obtain ⟨-, hn₁, hlinked⟩ := nodeAt_head ho₁
    unfold showLoop
    rw [hrun, hmap]
    simp only [Option.bind_eq_bind, Option.bind_some, hn₁]
    have htail : OwnsList h₁ y.2.next nodes := by
      refine ⟨hlinked, fun z hz => ho₁.texts z (List.mem_cons_of_mem _ hz), ?_⟩
      exact (List.nodup_append.mp (List.flatMap_cons ▸ ho.nodup)).2.1
    cases hnext : y.2.next with
    | none =>
      rw [hnext] at htail
      cases htail.linked
      cases hcar
      exact ⟨current, h₁, by simp [shown], by simpa using hstrings⟩
    | some next =>
      rw [hnext] at htail
      obtain ⟨last, h₂, hloop, hr'⟩ := ih (s := { s with flCurrent := current }) htail hcar hi
        (fun it' hit' => hfit it' (List.mem_append_right _ hit')) (Nat.le_of_succ_le_succ hfuel)
      rw [List.flatMap_cons]
      refine ⟨last, h₂, ?_, hstrings.append hr'⟩
      simp only [hloop, Option.bind_some]

/-! ## A new list -/

theorem setNode_count {f : FlNode → FlNode} (hs : setNode h p f = some h') : h'.count = h.count := by
  obtain ⟨l, hn, rfl⟩ := Option.map_eq_some_iff.mp hs
  apply count_congr
  intro x
  by_cases hx : x = p
  · subst hx
    rw [get_set_self, get_of_nodeAt hn]
    simp
  · rw [get_set_ne hx]

theorem newItem_count {i : Nat} (hr : newItem A junk row h = some (i, h')) : h'.count = h.count + 4 := by
  unfold newItem at hr
  simp only [Option.bind_eq_bind, Option.bind_eq_some_iff, Allocator.alloc, Option.some.injEq, Prod.mk.injEq] at hr
  obtain ⟨h₁, hs₁, name, -, h₂, hs₂, desc, -, h₃, hs₃, owner, -, h₄, hs₄, -, rfl⟩ := hr
  rw [setNode_count hs₄, count_set (A.fresh h₃), setNode_count hs₃, count_set (A.fresh h₂), setNode_count hs₂,
    count_set (A.fresh h₁), setNode_count hs₁, count_set (A.fresh h)]

theorem rowItem_hasTexts (hi : rowItem row ≠ none) : HasTexts row := by
  obtain ⟨it, hit⟩ := Option.ne_none_iff_exists'.mp hi
  obtain ⟨hname, hdesc, howner, -⟩ := rowItem_some hit
  exact ⟨by simp [hname], by simp [hdesc], by simp [howner]⟩

theorem Carries.length_blocks {i : Nat} (hc : Carries h row l) (ht : HasTexts row) :
    (flBlocks (i, l)).length = 4 := by
  have hsome : ∀ {q : Option Nat} {t : Option Bytes}, q.map (textAt h) = t.map some → t ≠ none →
    q.toList.length = 1 := by
    intro q t hq ht
    obtain ⟨b, rfl⟩ := Option.ne_none_iff_exists'.mp ht
    obtain ⟨p, rfl, -⟩ := bind_textAt hq rfl
    rfl
  simp only [flBlocks, FlNode.strings, List.length_append, hsome hc.name ht.1, hsome hc.description ht.2.1,
    hsome hc.owner ht.2.2, List.length_singleton]

theorem IsNew.fresh_before {i : Nat} (hnew : IsNew h row i l h₁) (he : Extends h₀ h) :
    ∀ p ∈ flBlocks (i, l), h₀.get p = none := by
  intro p hp
  by_contra hne
  have hnone := hnew.fresh p hp
  rw [he p hne] at hnone
  exact hne hnone

theorem Grown.first {i : Nat} (hg : Grown h₀ d h [] []) (hnew : IsNew h row i l h₁) (hcount : h₁.count = h.count + 4)
    (hl : (flBlocks (i, l)).length = 4) : Grown h₀ ⟨some i, some i⟩ h₁ [(i, l)] [row] where
  building := ⟨⟨.cons (get_of_nodeAt hnew.node) rfl (hnew.last ▸ .nil), by simpa using hnew.texts,
    by simpa using hnew.nodup⟩, by simp, .cons hnew.carries .nil⟩
  extends_ := fun x hx => by
    have hh := hg.extends_ x hx
    rw [hnew.extends_ x (by rw [hh]; exact hx), hh]
  fresh := by simpa using hnew.fresh_before hg.extends_
  count := by
    rw [List.flatMap_singleton, hl, hcount, hg.count]
    rfl
  length := by simpa using hl

theorem Grown.link {i c : Nat} {m : FlNode} {init : List (Nat × FlNode)}
    (hg : Grown h₀ ⟨start, some c⟩ h (init ++ [(c, m)]) rows)
    (hm : nodeAt h c = some m) (hnew : IsNew h row i l h₁) (hcount : h₁.count = h.count + 4)
    (hl : (flBlocks (i, l)).length = 4) :
    Grown h₀ ⟨start, some i⟩ (h₁.set c (.node { m with next := some i })) (init ++ [(c, { m with next := some i }), (i, l)])
      (rows ++ [row]) := by
  have hblocks : (init ++ [(c, { m with next := some i }), (i, l)]).flatMap flBlocks =
      (init ++ [(c, m)]).flatMap flBlocks ++ flBlocks (i, l) := by
    simp [flBlocks, FlNode.strings]
  have hm₁ : nodeAt h₁ c = some m := by
    rw [nodeAt, hnew.extends_ c (by rw [get_of_nodeAt hm]; simp)]
    exact hm
  refine ⟨⟨hnew.owns hm hg.building.owns, by simp, hnew.carry hm hg.building.owns hg.building.carries⟩,
    fun x hx => ?_, ?_, ?_, ?_⟩
  · -- the node `c` is one of the new ones
    have hc : x ≠ c := by
      rintro rfl
      exact hx (hg.fresh x (List.mem_flatMap.mpr ⟨(x, m), by simp, by simp [flBlocks]⟩))
    have hh := hg.extends_ x hx
    rw [get_set_ne hc, hnew.extends_ x (by rw [hh]; exact hx), hh]
  · intro p hp
    rw [hblocks] at hp
    rcases List.mem_append.mp hp with hp | hp
    · exact hg.fresh p hp
    · exact hnew.fresh_before hg.extends_ p hp
  · rw [hblocks, List.length_append, hl, setNode_count (setNode_eq (f := fun m => { m with next := some i }) hm₁),
      hcount, hg.count, Nat.add_assoc]
  · rw [hblocks, List.length_append, hl, hg.length, List.length_append, List.length_singleton, Nat.mul_add]

theorem dbGetFilesDataNode_grown (A : Allocator FlBlock) (junk : FlHeap → FlNode) (hg : Grown h₀ d h nodes rows)
    (hi : rowItem row ≠ none) : ∃ d' h' nodes', dbGetFilesDataNode A junk row d h = some (d', h') ∧
      Grown h₀ d' h' nodes' (rows ++ [row]) := by
  have ht := rowItem_hasTexts hi
  obtain ⟨i, l, h₁, hrun, hnew⟩ := newItem_spec A junk h ht
  have hcount := newItem_count hrun
  have hl : (flBlocks (i, l)).length = 4 := hnew.carries.length_blocks ht
  have ho := hg.building.owns
  rw [dbGetFilesDataNode, hrun]
  simp only [Option.bind_eq_bind, Option.bind_some]
  rcases List.eq_nil_or_concat nodes with rfl | ⟨init, ⟨c, m⟩, rfl⟩
  · obtain rfl := List.forall₂_nil_right_iff.mp hg.building.carries
    rw [linkItem, ho.start_eq_none]
    exact ⟨_, _, _, rfl, hg.first hnew hcount hl⟩
  · rw [List.concat_eq_append] at hg ho
    obtain ⟨q, hstart⟩ := ho.start_ne_none
    have hlast : d.current = some c := hg.building.current (c, m) (by simp)
    obtain ⟨a, ha, hv⟩ := ho.linked.mem (c, m) (by simp)
    have hm : nodeAt h c = some m := by
      rw [nodeAt, ha]
      exact hv
    have hm₁ : nodeAt h₁ c = some m := by
      rw [nodeAt, hnew.extends_ c (by rw [ha]; simp)]
      exact hm
    obtain ⟨start, current⟩ := d
    obtain rfl : start = some q := hstart
    obtain rfl : current = some c := hlast
    refine ⟨_, _, _, ?_, hg.link hm hnew hcount hl⟩
    simp only [linkItem, setNode_eq hm₁, Option.bind_eq_bind, Option.bind_some]

theorem buildList_grown (A : Allocator FlBlock) (junk : FlHeap → FlNode) {done : List (List Cell)}
    (hg : Grown h₀ d h nodes done)
    (hi : ∀ row ∈ rows, rowItem row ≠ none) : ∃ d' h' nodes', buildList A junk rows d h = some (d', h') ∧
      Grown h₀ d' h' nodes' (done ++ rows) := by
  induction rows generalizing d h nodes done with
  | nil => exact ⟨d, h, nodes, rfl, by rwa [List.append_nil]⟩
  | cons row rows ih =>
    obtain ⟨hrow, hrows⟩ := List.forall_mem_cons.mp hi
    obtain ⟨d₁, h₁, nodes₁, hrun, hg₁⟩ := dbGetFilesDataNode_grown A junk hg hrow
    obtain ⟨d₂, h₂, nodes₂, hrun', hg₂⟩ := ih hg₁ hrows
    refine ⟨d₂, h₂, nodes₂, ?_, by rwa [List.append_assoc] at hg₂⟩
    simp only [buildList, hrun, hrun', Option.bind_eq_bind, Option.bind_some]

theorem Grown.none (h : FlHeap) : Grown h ⟨none, none⟩ h [] [] where
  building := ⟨⟨.nil, nofun, List.nodup_nil⟩, nofun, .nil⟩
  extends_ := fun _ _ => rfl
  fresh := nofun
  count := rfl
  length := rfl

/-! ## One session -/

theorem FlSession.Holds.uname_text {uname : Option Bytes} {items : Nat} (hs : s.Holds fuel h nodes uname items) :
    ∀ p ∈ s.uname.toList, (textAt h p).isSome := by
  intro p hp
  have hname := hs.uname
  rw [Option.mem_toList.mp hp] at hname
  obtain ⟨b, -, hb⟩ := Option.map_eq_some_iff.mp hname.symm
  rw [← hb]
  rfl

theorem FlSession.Holds.live {uname : Option Bytes} {items : Nat} (hs : s.Holds fuel h nodes uname items) :
    ∀ p ∈ s.blocks nodes, h.get p ≠ none := by
  intro p hp
  rcases List.mem_append.mp hp with hp | hp
  · exact get_ne_none_of_text (hs.uname_text p hp)
  · exact hs.list.live p hp

theorem FlSession.Holds.frame {uname : Option Bytes} {items : Nat} (hs : s.Holds fuel h nodes uname items)
    (hsame : ∀ p ∈ s.blocks nodes, h'.get p = h.get p) : s.Holds fuel h' nodes uname items where
  uname := by
    rw [← hs.uname]
    cases hu : s.uname with
    | none => rfl
    | some p =>
      have hp : h'.get p = h.get p := hsame p (List.mem_append_left _ (by simp [hu]))
      rw [Option.map_some, Option.map_some, textAt, textAt, hp]
  list := hs.list.frame fun p hp => hsame p (List.mem_append_right _ hp)
  short := hs.short
  length := hs.length
  nodup := hs.nodup

inductive SlotHolds (fuel : Nat) (h : FlHeap) (nodes : List (Nat × FlNode)) :
    Option FlSession → Option (Option Bytes × Nat) → Prop
  | free : SlotHolds fuel h nodes none none
  | used {s : FlSession} {uname : Option Bytes} {items : Nat} : s.Holds fuel h nodes uname items →
    SlotHolds fuel h nodes (some s) (some (uname, items))

def slotBlocks (c : Option FlSession) (nodes : List (Nat × FlNode)) : List Nat :=
  match c with
  | none => []
  | some s => s.blocks nodes

theorem SlotHolds.live {c : Option FlSession} {held : Option (Option Bytes × Nat)}
    (hc : SlotHolds fuel h nodes c held) :
    ∀ p ∈ slotBlocks c nodes, h.get p ≠ none := by
  cases hc with
  | free => exact nofun
  | used hs => exact hs.live

theorem SlotHolds.frame {c : Option FlSession} {held : Option (Option Bytes × Nat)}
    (hc : SlotHolds fuel h nodes c held)
    (hsame : ∀ p ∈ slotBlocks c nodes, h'.get p = h.get p) : SlotHolds fuel h' nodes c held := by
  cases hc with
  | free => exact .free
  | used hs => exact .used (hs.frame hsame)

/-! ## All sessions -/

/-- The sessions have their names and lists for themselves, and every block is one of these or lost. -/
structure FlServer.Keeps (fuel : Nat) (m : FlServer) (g : FlLedger) (lists : Nat → List (Nat × FlNode)) : Prop where
  holds : ∀ i, SlotHolds fuel m.heap (lists i) (m.connections i) (g.held i)
  apart : ∀ i j, i ≠ j → (slotBlocks (m.connections i) (lists i)).Disjoint (slotBlocks (m.connections j) (lists j))
  table : ∀ i, maxConnections ≤ i → g.held i = none
  count : m.heap.count = g.lost + ∑ i ∈ Finset.range maxConnections, blocksHeld (g.held i)

theorem empty_keeps : FlServer.empty.Keeps fuel .empty fun _ => [] where
  holds := fun _ => .free
  apart := fun _ _ _ => List.disjoint_nil_left _
  table := fun _ _ => rfl
  count := by simp [FlServer.empty, FlLedger.empty, Heap.count, blocksHeld]

theorem sum_update (held : Nat → Option (Option Bytes × Nat)) {i : Nat} (hi : i < maxConnections)
    (u : Option (Option Bytes × Nat)) :
    ∑ j ∈ Finset.range maxConnections, blocksHeld (update held i u j) + blocksHeld (held i) =
      ∑ j ∈ Finset.range maxConnections, blocksHeld (held j) + blocksHeld u := by
  have hmem := Finset.mem_range.mpr hi
  have hrest : ∑ j ∈ Finset.range maxConnections \ {i}, blocksHeld (update held i u j) =
      ∑ j ∈ Finset.range maxConnections \ {i}, blocksHeld (held j) := by
    refine Finset.sum_congr rfl fun j hj => ?_
    rw [update_of_ne (by simpa using (Finset.mem_sdiff.mp hj).2)]
  rw [Finset.sum_eq_add_sum_sdiff_singleton_of_mem hmem, hrest, update_self,
    Finset.sum_eq_add_sum_sdiff_singleton_of_mem hmem fun j => blocksHeld (held j)]
  omega

/-- One slot changes: its blocks are among the old ones, or new, and no others are touched. -/
theorem FlServer.Keeps.put {m : FlServer} {g : FlLedger} {lists : Nat → List (Nat × FlNode)}
    (hk : m.Keeps fuel g lists) {i lost : Nat}
    {c : Option FlSession} {u : Option (Option Bytes × Nat)} (hi : i < maxConnections)
    (hc : SlotHolds fuel h' nodes c u)
    (hframe : ∀ x, x ∉ slotBlocks (m.connections i) (lists i) → m.heap.get x ≠ none → h'.get x = m.heap.get x)
    (hnew : ∀ p ∈ slotBlocks c nodes, p ∈ slotBlocks (m.connections i) (lists i) ∨ m.heap.get p = none)
    (hcount : h'.count + blocksHeld (g.held i) + g.lost = m.heap.count + blocksHeld u + lost) :
    FlServer.Keeps fuel ⟨h', update m.connections i c⟩ ⟨update g.held i u, lost⟩ (update lists i nodes) := by
  have hother : ∀ j, j ≠ i → ∀ p ∈ slotBlocks (m.connections j) (lists j), p ∉ slotBlocks c nodes := by
    intro j hj p hp hpc
    rcases hnew p hpc with hold | hnone
    · exact hk.apart j i hj hp hold
    · exact (hk.holds j).live p hp hnone
  constructor
  · intro j
    by_cases hj : j = i
    · subst hj
      simpa using hc
    · simp only [update_of_ne hj]
      exact (hk.holds j).frame fun p hp => hframe p (fun hpi => hk.apart j i hj hp hpi) ((hk.holds j).live p hp)
  · intro j k hjk
    by_cases hj : j = i
    · subst hj
      simp only [update_self, update_of_ne (Ne.symm hjk)]
      exact fun p hp hp' => hother k (Ne.symm hjk) p hp' hp
    · by_cases hki : k = i
      · subst hki
        simp only [update_self, update_of_ne hj]
        exact fun p hp hp' => hother j hj p hp hp'
      · simp only [update_of_ne hj, update_of_ne hki]
        exact hk.apart j k hjk
  · intro j hj
    have hne : j ≠ i := by omega
    simp only [update_of_ne hne]
    exact hk.table j hj
  · have hsum := sum_update g.held hi u
    have hold := hk.count
    dsimp only
    omega

/-! ## Each call -/

section
variable {m : FlServer} {g : FlLedger} {lists : Nat → List (Nat × FlNode)} {i : Nat} {uname : Option Bytes}
  {items : Nat}

theorem SlotHolds.session (hc : SlotHolds fuel h nodes (m.connections i) (some (uname, items))) :
    ∃ s, m.connections i = some s ∧ s.Holds fuel h nodes uname items := by
  generalize m.connections i = c at hc
  cases hc with
  | @used s _ _ hs => exact ⟨s, rfl, hs⟩

theorem FlServer.Keeps.inTable (hk : m.Keeps fuel g lists) (hi : g.held i = some (uname, items)) :
    i < maxConnections := by
  by_contra hlt
  rw [hk.table i (Nat.le_of_not_lt hlt)] at hi
  cases hi

theorem acceptClient_keeps (hk : m.Keeps fuel g lists) (hfree : g.held i = none) (hi : i < maxConnections) :
    ∃ m', m.call A junk fuel (.acceptClient i) = some ([], m') ∧
      m'.Keeps fuel { g with held := update g.held i (some (none, 0)) } (update lists i []) := by
  have hc := hk.holds i
  rw [hfree] at hc
  have hnone : m.connections i = none := by
    generalize m.connections i = c at hc
    cases hc
    rfl
  refine ⟨⟨m.heap, update m.connections i (some ⟨none, none, none⟩)⟩, ?_,
    hk.put hi (.used ?_) (fun _ _ _ => rfl) nofun ?_⟩
  · simp only [FlServer.call, hnone, Nat.not_le.mpr hi, if_false]
  · exact ⟨rfl, ⟨.nil, nofun, List.nodup_nil⟩, Nat.zero_le _, rfl, List.nodup_nil⟩
  · simp [hfree, blocksHeld]

/-- The old name is lost. -/
theorem setUname_keeps (hk : m.Keeps fuel g lists) (hheld : g.held i = some (uname, items)) (name : Bytes) :
    ∃ m', m.call A junk fuel (.setUname i name) = some ([], m') ∧
      m'.Keeps fuel ⟨update g.held i (some (some name, items)), g.lost + uname.toList.length⟩ (update lists i (lists i)) := by
  have hc := hk.holds i
  rw [hheld] at hc
  obtain ⟨s, hs, hh⟩ := hc.session
  have hfresh := A.fresh m.heap
  have hne : ∀ p ∈ s.blocks (lists i), p ≠ A.addr m.heap := by
    rintro p hp rfl
    exact hh.live _ hp hfresh
  have hlist : ∀ p ∈ (lists i).flatMap flBlocks, p ≠ A.addr m.heap := fun p hp => hne p (List.mem_append_right _ hp)
  refine ⟨⟨m.heap.set (A.addr m.heap) (.text name),
    update m.connections i (some { s with uname := some (A.addr m.heap) })⟩,
    by simp [FlServer.call, hs, Allocator.alloc], hk.put (hk.inTable hheld) (.used ⟨?_, ?_, hh.short, hh.length,
      ?_⟩) ?_ ?_ ?_⟩
  · exact congrArg some (textAt_of_get (get_set_self ..))
  · exact hh.list.frame fun p hp => get_set_ne (hlist p hp)
  · refine List.nodup_cons.mpr ⟨fun hp => hlist _ hp rfl, (List.nodup_append.mp hh.nodup).2.1⟩
  · intro x _ hx
    exact get_set_ne (by rintro rfl; exact hx hfresh)
  · intro p hp
    rw [hs]
    rcases List.mem_cons.mp hp with rfl | hp
    · exact .inr hfresh
    · exact .inl (List.mem_append_right _ hp)
  · rw [count_set hfresh, hheld]
    simp only [blocksHeld, Option.toList_some, List.length_singleton]
    omega

theorem closeSessionMemory_spec (hh : s.Holds fuel h nodes uname items) :
    ∃ h', closeSessionMemory fuel s h = some h' ∧ Heap.Freed h (s.blocks nodes) h' := by
  obtain ⟨-, -, hapart⟩ := List.nodup_append.mp hh.nodup
  -- the list is freed after the name
  have hlast : ∀ h₁, Heap.Freed h s.uname.toList h₁ → ∃ h₂, (if s.flStart ≠ none then
      (clearList fuel (some s.flStart) none ⟨h₁, []⟩).map (·.2.2.heap) else some h₁) = some h₂ ∧
        Heap.Freed h (s.blocks nodes) h₂ := by
    intro h₁ hf₁
    have hlist : OwnsList h₁ s.flStart nodes :=
      hh.list.frame fun p hp => hf₁.get_of_not_mem fun hpu => hapart p hpu p hp rfl
    by_cases hstart : s.flStart = none
    · rw [hstart] at hlist
      cases hlist.linked
      exact ⟨h₁, if_neg (not_not.mpr hstart), hf₁.append (.nil _)⟩
    · obtain ⟨h₂, hrun, hf⟩ := clears hlist fuel hh.short none []
      exact ⟨h₂, by rw [if_pos hstart, hrun]; rfl, hf₁.append hf⟩
  unfold closeSessionMemory
  cases hu : s.uname with
  | none => exact hlast h (by rw [hu]; exact .nil h)
  | some p =>
    obtain ⟨h₁, hfree, hf₁⟩ := free_some (hh.live p (by simp [FlSession.blocks, hu]))
    simp only [hfree, Option.bind_eq_bind, Option.bind_some]
    exact hlast h₁ (by rw [hu]; exact hf₁)

theorem FlSession.Holds.length_blocks (hh : s.Holds fuel h nodes uname items) :
    (s.blocks nodes).length = blocksHeld (some (uname, items)) := by
  have hname : s.uname.toList.length = uname.toList.length := by
    have hmap := hh.uname
    cases uname with
    | none => simpa using hmap
    | some u =>
      obtain ⟨p, hp, -⟩ := bind_textAt hmap rfl
      rw [hp]
      rfl
  rw [FlSession.blocks, List.length_append, hname, hh.length]
  rfl

theorem closeSession_keeps (hk : m.Keeps fuel g lists) (hheld : g.held i = some (uname, items)) :
    ∃ m', m.call A junk fuel (.closeSession i) = some ([], m') ∧
      m'.Keeps fuel { g with held := update g.held i none } (update lists i []) := by
  have hc := hk.holds i
  rw [hheld] at hc
  obtain ⟨s, hs, hh⟩ := hc.session
  obtain ⟨h₁, hrun, hf⟩ := closeSessionMemory_spec hh
  have hcount := count_freed hf hh.nodup hh.live
  refine ⟨⟨h₁, update m.connections i none⟩, ?_, hk.put (hk.inTable hheld) .free ?_ nofun ?_⟩
  · simp only [FlServer.call, hs, hrun, Option.bind_eq_bind, Option.bind_some]
  · intro x hx _
    rw [hs] at hx
    exact hf.get_of_not_mem hx
  · rw [hheld, ← hh.length_blocks]
    simp only [blocksHeld]
    omega

/-! ### A listing -/

theorem listed_some {args : FileListArgs} {fullCount : Int} {text : Bytes}
    (hl : listed args rows fullCount uname = some text) :
    args.limit ≠ 0 ∧ (∀ row ∈ rows, rowItem row ≠ none) ∧
      (rows = [] ∧ text = pageInfo args.page args.limit (toInt rows.length) fullCount ∨
        rows ≠ [] ∧ ∃ u, uname = some u ∧ (∀ it ∈ shown u rows, (itemH it).length < 256) ∧
          text = ((shown u rows).map fullStr).flatten ++ pageInfo args.page args.limit (toInt rows.length) fullCount) := by
  unfold listed at hl
  split at hl
  · cases hl
  · rename_i hok
    rw [not_or, List.any_eq_true] at hok
    have hitems : ∀ row ∈ rows, rowItem row ≠ none := fun row hrow hn => hok.2 ⟨row, hrow, by rw [hn]; rfl⟩
    refine ⟨hok.1, hitems, ?_⟩
    split at hl
    · exact .inl ⟨‹_›, (Option.some.inj hl).symm⟩
    · rename_i hne
      obtain ⟨u, hu, hl⟩ := Option.bind_eq_some_iff.mp hl
      split at hl
      · rename_i hfit
        refine .inr ⟨hne, u, hu, fun it hit => of_decide_eq_true (List.all_eq_true.mp hfit it hit), ?_⟩
        rw [← Option.some.inj hl, fileListText, fileListTexts, List.flatten_append, List.flatten_singleton, shown]
      · cases hl

section
variable {args : FileListArgs} {fullCount : Int} (hlimit : args.limit ≠ 0)
  (hb : buildList A junk rows ⟨none, none⟩ h = some (d, h₁))
include hlimit hb

theorem fileListMemory_none (hd : d.start = none) : fileListMemory A junk fuel args rows fullCount s h =
    some (pageInfo args.page args.limit (toInt rows.length) fullCount, s, h₁) := by
  unfold fileListMemory
  cases s.flStart with
  | none =>
    simp only [ne_eq, not_true_eq_false, if_false, hb, Option.bind_eq_bind, Option.bind_some, hlimit, hd]
  | some p =>
    simp only [ne_eq, reduceCtorEq, not_false_eq_true, if_true, clearList, hb, Option.bind_eq_bind, Option.bind_some,
      Option.map_some, hlimit, if_false, hd]

theorem fileListMemory_some {q : Nat} {text : Bytes} {s' : FlSession} (hd : d.start = some q)
    (hu : s.uname.bind (textAt h₁) = some u) (hloop : showLoop A u fuel s q h₁ = some (text, s', h')) :
    fileListMemory A junk fuel args rows fullCount s h =
      some (text ++ pageInfo args.page args.limit (toInt rows.length) fullCount, { s' with flStart := some q }, h') := by
  unfold fileListMemory
  cases hs : s.flStart with
  | none =>
    simp only [ne_eq, not_true_eq_false, if_false, hb, Option.bind_eq_bind, Option.bind_some, hlimit, hd, hu, hloop]
  | some p =>
    simp only [ne_eq, reduceCtorEq, not_false_eq_true, if_true, clearList, hb, Option.bind_eq_bind, Option.bind_some,
      Option.map_some, hlimit, if_false, hd, hu, hloop]

end

/-- The old list is lost, if there is a new one. -/
theorem fileList_keeps (hk : m.Keeps fuel g lists) (hheld : g.held i = some (uname, items)) {args : FileListArgs}
    {fullCount : Int} {text : Bytes} (hl : listed args rows fullCount uname = some text)
    (hfuel : rows.length ≤ fuel) :
    ∃ m' nodes, m.call A junk fuel (.fileList i args rows fullCount) = some ([(i, text)], m') ∧
      m'.Keeps fuel (if rows = [] then g else ⟨update g.held i (some (uname, rows.length)), g.lost + 4 * items⟩)
        (update lists i nodes) := by
  have hc := hk.holds i
  rw [hheld] at hc
  obtain ⟨s, hs, hh⟩ := hc.session
  obtain ⟨hlimit, hitems, htext⟩ := listed_some hl
  simp only [FlServer.call, hs, Option.bind_eq_bind, Option.bind_some]
  rcases htext with ⟨rfl, rfl⟩ | ⟨hne, u, rfl, hfit, rfl⟩
  · have hsame : update m.connections i (some s) = m.connections := by rw [← hs, update_eq_self]
    refine ⟨m, lists i, ?_, ?_⟩
    · rw [fileListMemory_none hlimit (d := ⟨none, none⟩) rfl rfl]
      simp only [Option.bind_some, hsame]
    · rw [if_pos rfl, update_eq_self]
      exact hk
  · obtain ⟨d, h₁, nodes, hbuild, hg⟩ := buildList_grown A junk (Grown.none m.heap) hitems
    rw [List.nil_append] at hg
    have hlen := hg.building.carries.length_eq
    obtain ⟨q, hstart⟩ : ∃ q, d.start = some q := by
      rcases List.eq_nil_or_concat nodes with rfl | ⟨init, x, rfl⟩
      · exact absurd (List.length_eq_zero_iff.mp hlen) hne
      · rw [List.concat_eq_append] at hg
        exact hg.building.owns.start_ne_none
    have hlive : ∀ x, m.heap.get x ≠ none → x ∉ nodes.flatMap flBlocks := fun x hx hn => hx (hg.fresh x hn)
    obtain ⟨p, hp, hpt⟩ := bind_textAt hh.uname rfl
    have hpl : m.heap.get p ≠ none := hh.live p (by simp [FlSession.blocks, hp])
    have hpt₁ : textAt h₁ p = some u := by
      rw [textAt, hg.extends_ p hpl]
      exact hpt
    obtain ⟨current, h₂, hloop, hr⟩ := showLoop_spec (A := A) (s := s)
      (hstart ▸ hg.building.owns) hg.building.carries hitems hfit
      (hlen ▸ hfuel)
    have hsame : ∀ x, m.heap.get x ≠ none → h₂.get x = m.heap.get x := fun x hx =>
      (hr.elsewhere (hlive x hx)).trans (hg.extends_ x hx)
    refine ⟨⟨h₂, update m.connections i (some { s with flCurrent := current, flStart := some q })⟩, nodes, ?_, ?_⟩
    · have hu : s.uname.bind (textAt h₁) = some u := by rw [hp, Option.bind_some, hpt₁]
      rw [fileListMemory_some hlimit hbuild hstart hu hloop]
      rfl
    · rw [if_neg hne]
      refine hk.put (hk.inTable hheld) (.used ⟨?_, ?_, hlen ▸ hfuel, hg.length, ?_⟩) (fun x _ hx => hsame x hx) ?_ ?_
      · show s.uname.map (textAt h₂) = _
        rw [hp, Option.map_some, textAt, hsame p hpl]
        exact congrArg some hpt
      · exact hstart ▸ hr.owns hg.building.owns
      · refine List.nodup_append.mpr ⟨(List.nodup_append.mp hh.nodup).1, hg.building.owns.nodup, ?_⟩
        rintro x hx y hy rfl
        exact hlive x (hh.live x (List.mem_append_left _ hx)) hy
      · intro x hx
        rcases List.mem_append.mp hx with hx | hx
        · rw [hs]
          exact .inl (List.mem_append_left _ hx)
        · exact .inr (hg.fresh x hx)
      · rw [hr.count, hg.count, hg.length, hheld]
        simp only [blocksHeld]
        omega

def FlCall.rounds : FlCall → Nat
  | .fileList _ _ rows _ => rows.length
  | _ => 0

theorem FlServer.Keeps.call (A : Allocator FlBlock) (junk : FlHeap → FlNode) (hk : m.Keeps fuel g lists) {c : FlCall}
    {sent : List (Nat × Bytes)} {g' : FlLedger} (hg : g.call c = some (sent, g')) (hfuel : c.rounds ≤ fuel) :
    ∃ m' lists', m.call A junk fuel c = some (sent, m') ∧ m'.Keeps fuel g' lists' := by
  cases c with
  | acceptClient i =>
    simp only [FlLedger.call] at hg
    split at hg
    · rename_i hfree
      cases hg
      obtain ⟨m', hrun, hk'⟩ := acceptClient_keeps hk hfree.1 hfree.2
      exact ⟨m', _, hrun, hk'⟩
    · cases hg
  | setUname i name =>
    obtain ⟨⟨uname, items⟩, hheld, hg⟩ := Option.bind_eq_some_iff.mp hg
    cases hg
    obtain ⟨m', hrun, hk'⟩ := setUname_keeps hk hheld name
    exact ⟨m', _, hrun, hk'⟩
  | fileList i args rows fullCount =>
    obtain ⟨⟨uname, items⟩, hheld, hg⟩ := Option.bind_eq_some_iff.mp hg
    obtain ⟨text, hl, hg⟩ := Option.bind_eq_some_iff.mp hg
    obtain ⟨m', nodes, hrun, hk'⟩ := fileList_keeps hk hheld hl hfuel
    split at hg
    · rename_i hrows
      cases hg
      rw [if_pos hrows] at hk'
      exact ⟨m', _, hrun, hk'⟩
    · rename_i hrows
      cases hg
      rw [if_neg hrows] at hk'
      exact ⟨m', _, hrun, hk'⟩
  | closeSession i =>
    obtain ⟨⟨uname, items⟩, hheld, hg⟩ := Option.bind_eq_some_iff.mp hg
    cases hg
    obtain ⟨m', hrun, hk'⟩ := closeSession_keeps hk hheld
    exact ⟨m', _, hrun, hk'⟩

theorem FlServer.Keeps.calls (A : Allocator FlBlock) (junk : FlHeap → FlNode) {cs : List FlCall}
    (hk : m.Keeps fuel g lists)
    {sent : List (Nat × Bytes)} {g' : FlLedger} (hg : g.calls cs = some (sent, g'))
    (hfuel : ∀ c ∈ cs, c.rounds ≤ fuel) :
    ∃ m' lists', m.calls A junk fuel cs = some (sent, m') ∧ m'.Keeps fuel g' lists' := by
  induction cs generalizing m g lists sent with
  | nil =>
    cases hg
    exact ⟨m, lists, rfl, hk⟩
  | cons c cs ih =>
    obtain ⟨⟨first, g₁⟩, hc, hg⟩ := Option.bind_eq_some_iff.mp hg
    obtain ⟨⟨more, g₂⟩, hcs, hg⟩ := Option.bind_eq_some_iff.mp hg
    cases hg
    obtain ⟨hfirst, hrest⟩ := List.forall_mem_cons.mp hfuel
    obtain ⟨m₁, lists₁, hrun₁, hk₁⟩ := hk.call A junk hc hfirst
    obtain ⟨m₂, lists₂, hrun₂, hk₂⟩ := ih hk₁ hcs hrest
    refine ⟨m₂, lists₂, ?_, hk₂⟩
    simp only [FlServer.calls, hrun₁, hrun₂, Option.bind_eq_bind, Option.bind_some]

end

end

/-- **The memory of listings.** Over any calls for any sessions that the account allows (`FlLedger.calls`: no
listing with a limit of 0, a text that is `NULL`, a line that is too long, or of a session without a name), the
functions go through: no block is freed twice or used after it has been freed. They write what is listed, and in
the end the blocks in use are those that the sessions hold, and those that are lost: a name that has got another
one, and a list that has. -/
theorem listings_accounted (A : Allocator FlBlock) (junk : FlHeap → FlNode) {fuel : Nat} {cs : List FlCall}
    {sent : List (Nat × Bytes)} {g : FlLedger} (hg : FlLedger.empty.calls cs = some (sent, g))
    (hfuel : ∀ c ∈ cs, c.rounds ≤ fuel) : ∃ m, FlServer.empty.calls A junk fuel cs = some (sent, m) ∧
      m.heap.count = g.lost + ∑ i ∈ Finset.range maxConnections, blocksHeld (g.held i) := by
  obtain ⟨m, lists, hrun, hk⟩ := empty_keeps.calls A junk hg hfuel
  exact ⟨m, hrun, hk.count⟩

def bobsRow : List Cell :=
  [.integer 1, .integer 1, .text (ascii "a"), .integer 1, .text (ascii "text"), .integer 1, .integer 7,
    .text (ascii "bob")]

def listsTwice : List FlCall :=
  [.acceptClient 4, .setUname 4 (ascii "bob"), .fileList 4 ⟨1, 20, none⟩ [bobsRow] 1,
    .fileList 4 ⟨1, 20, none⟩ [bobsRow] 1, .closeSession 4]

theorem listings_accounted_twice : ∃ A junk sent m, FlServer.empty.calls A junk 1 listsTwice = some (sent, m) ∧
    sent.length = 2 ∧ m.heap.count = 4 := by
  obtain ⟨A⟩ : Nonempty (Allocator FlBlock) := inferInstance
  have h : (FlLedger.empty.calls listsTwice).map (fun r =>
      (r.1.length, r.2.lost + ∑ i ∈ Finset.range maxConnections, blocksHeld (r.2.held i))) = some (2, 4) := by
    decide +kernel
  obtain ⟨⟨sent, g⟩, hg, he⟩ := Option.map_eq_some_iff.mp h
  obtain ⟨hsent, hcount⟩ := Prod.mk.inj he
  obtain ⟨m, hrun, hm⟩ := listings_accounted A (fun _ => ⟨none, none, none, 0, 0, 0, 0, 0, none⟩) hg
    (by decide : ∀ c ∈ listsTwice, c.rounds ≤ 1)
  exact ⟨A, _, sent, m, hrun, hsent, hm.trans hcount⟩

end BbsServer
