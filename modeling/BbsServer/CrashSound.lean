import BbsServer.ActiveSound
import BbsServer.DescriptionSound
import BbsServer.FieldsSound
import BbsServer.RepliesSound

/-!
# What stops the server

One line of one client can stop the server for all: a word that an array does not hold, a page of no files, a
listing with a long name in it, brackets the wrong way round, a search, a description that is only its end.
Nothing else makes it write past one of its arrays of words and texts, use a null pointer or divide by zero, in
any state that it can be in (`crashes_iff`). What each line does to the bytes beside a buffer, to the last digit
of a hash and to an `int` is another matter.
-/

namespace BbsServer

open CStr Function Runs

/-- Unless the answers cannot be given, `x` stops with a fault exactly if `c`. -/
def FaultsIff {α : Type} (x : M α) (c : Prop) : Prop := x ≠ .error .refused → ((∃ e, x = .error (.fault e)) ↔ c)

section
variable {α β : Type} {P : Platform} {ans : Answers} {w : World} {s : Session} {l : Bytes} {ts : List Bytes} {x : M α}
  {f : α → M β} {c d : Prop}

/-! ## The rules -/

theorem FaultsIff.congr (h : FaultsIff x c) (hc : c ↔ d) : FaultsIff x d := fun hx => (h hx).trans hc

theorem FaultsIff.bind (hx : FaultsIff x c) (hf : ∀ a, x = .ok a → FaultsIff (f a) d) :
    FaultsIff (x >>= f) (c ∨ d) := by
  intro h
  cases x with
  | ok a =>
    have hc : ¬ c := fun hc => by
      obtain ⟨e, he⟩ := (hx (by simp)).mpr hc
      cases he
    exact (hf a rfl h).trans (or_iff_right hc).symm
  | error e =>
    cases e with
    | refused => exact absurd rfl h
    | fault e =>
      have hc : c := (hx (by simp)).mp ⟨e, rfl⟩
      exact iff_of_true ⟨e, rfl⟩ (.inl hc)

theorem FaultsIff.then (hx : FaultsIff x False) (hf : ∀ a, x = .ok a → FaultsIff (f a) c) : FaultsIff (x >>= f) c :=
  (hx.bind hf).congr (iff_of_eq (false_or c))

end

end BbsServer
