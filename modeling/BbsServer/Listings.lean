import BbsServer.NodesSound

/-!
# Listings in memory

What `accept_client`, a login, `file_list` and `close_session` do to the memory of a session: its name, and the
list that `sess->fl_start` points to.
-/

namespace BbsServer

open CStr Heap Function

structure FlSession where
  uname : Option Nat
  flStart : Option Nat
  flCurrent : Option Nat

structure FlServer where
  heap : FlHeap
  connections : Nat → Option FlSession

def FlServer.empty : FlServer := { heap := ⟨fun _ => none, by simp⟩, connections := fun _ => none }

section
variable (A : Allocator FlBlock) (junk : FlHeap → FlNode) (fuel : Nat)

/-! ## `file_list` -/

def showItem (uname : Bytes) (s : FlSession) (curr : Nat) (h : FlHeap) : Option (Bytes × FlSession × FlHeap) := do
  let l ← nodeAt h curr
  let owner ← l.owner.bind (textAt h)
  if !strncmpZero owner uname uname.length && l.permissions == 0 then some ([], s, h)
  else
    let name ← l.name.bind (textAt h)
    let itemH := ascii "[" ++ name ++ ascii "] " ++ decimal l.size ++ ascii " " ++ owner
    if 256 ≤ itemH.length then none
    else
      let p ← l.description
      let description ← textAt h p
      let description := description.map fun c => if c = nl then 7 else c
      let h := h.set p (.text description)
      let (fullStr, h) := A.alloc h (.text (itemH ++ ascii " " ++ description ++ [nl]))
      let text ← textAt h fullStr
      let h ← h.free fullStr
      some (text, { s with flCurrent := some curr }, h)

def showLoop (uname : Bytes) : Nat → FlSession → Nat → FlHeap → Option (Bytes × FlSession × FlHeap)
  | 0, _, _, _ => none
  | fuel + 1, s, curr, h => do
    let (text, s, h) ← showItem A uname s curr h
    let l ← nodeAt h curr
    match l.next with
    | none => some (text, s, h)
    | some curr =>
      let (more, s, h) ← showLoop uname fuel s curr h
      some (text ++ more, s, h)

/-- `file_list`, where `rows` and `fullCount` are what the database says. The list that is cleared first is not
the one of the session. -/
def fileListMemory (args : FileListArgs) (rows : List (List Cell)) (fullCount : Int) (s : FlSession) (h : FlHeap) :
    Option (Bytes × FlSession × FlHeap) := do
  let h ← if s.flStart ≠ none then (clearList fuel (some none) (some none) ⟨h, []⟩).map (·.2.2.heap) else some h
  let (d, h) ← buildList A junk rows ⟨none, none⟩ h
  if args.limit = 0 then none
  else
    let pageInfo := pageInfo args.page args.limit (toInt rows.length) fullCount
    match d.start with
    | none => some (pageInfo, s, h)
    | some start =>
      let uname ← s.uname.bind (textAt h)
      let (text, s, h) ← showLoop A uname fuel s start h
      some (text ++ pageInfo, { s with flStart := some start }, h)

/-! ## The other functions -/

def closeSessionMemory (s : FlSession) (h : FlHeap) : Option FlHeap := do
  let h ← match s.uname with
    | none => some h
    | some p => h.free p
  if s.flStart ≠ none then (clearList fuel (some s.flStart) none ⟨h, []⟩).map (·.2.2.heap) else some h

inductive FlCall
  | acceptClient (i : Nat)
  /-- `sess->uname = malloc(...)`, in `process_user_name` and `create_user`. -/
  | setUname (i : Nat) (uname : Bytes)
  | fileList (i : Nat) (args : FileListArgs) (rows : List (List Cell)) (fullCount : Int)
  | closeSession (i : Nat)

/-- A call, and what it writes to whom. A descriptor that is accepted is not in use and within the table. -/
def FlServer.call (m : FlServer) : FlCall → Option (List (Nat × Bytes) × FlServer)
  | .acceptClient i =>
    match m.connections i with
    | some _ => none
    | none =>
      if maxConnections ≤ i then none
      else some ([], { m with connections := update m.connections i (some ⟨none, none, none⟩) })
  | .setUname i uname => do
    let s ← m.connections i
    let (p, heap) := A.alloc m.heap (.text uname)
    some ([], { heap, connections := update m.connections i (some { s with uname := some p }) })
  | .fileList i args rows fullCount => do
    let s ← m.connections i
    let (text, s, heap) ← fileListMemory A junk fuel args rows fullCount s m.heap
    some ([(i, text)], { heap, connections := update m.connections i (some s) })
  | .closeSession i => do
    let s ← m.connections i
    let heap ← closeSessionMemory fuel s m.heap
    some ([], { heap, connections := update m.connections i none })

def FlServer.calls (m : FlServer) : List FlCall → Option (List (Nat × Bytes) × FlServer)
  | [] => some ([], m)
  | c :: cs => do
    let (sent, m) ← m.call A junk fuel c
    let (more, m) ← m.calls cs
    some (sent ++ more, m)

end

end BbsServer
