import BbsServer.OwnLog

/-!
# Which lines are answered

A line leads to one message to its client, or to none: `register` without three words, a command that is not
known, the name of a file that is not there, and the lines that start a download, confirm a package or do not end
a description have no answer. A listing is written line by line. A client that waits is not told anything until it
sends more (`lines_answered`).
-/

namespace BbsServer

open CStr Runs

def talksTo (i : Nat) (w : World) : Nat := (logOf i w.trace).countP Act.isTalk

/-- Whatever `x` returns, `k` messages have been sent. -/
def Speaks {α : Type} (i k : Nat) (w : World) (x : M α) (world : α → World) : Prop :=
  ∀ a, x = .ok a → talksTo i (world a) = talksTo i w + k

section
variable {α β : Type} {P : Platform} {ans : Answers} {i k n : Nat} {w w' : World} {s t : Session}
  {l : Bytes} {x : M α}
  {f : α → M β} {ρ : α → World} {π : β → World} {b : Bool}

theorem Speaks.bind (hx : Speaks i k w x ρ) (hf : ∀ a, x = .ok a → Speaks i n (ρ a) (f a) π) :
    Speaks i (k + n) w (x >>= f) π := by
  intro b hb
  obtain ⟨a, ha, hb⟩ := bind_ok.mp hb
  rw [hf a ha b hb, hx a ha, Nat.add_assoc]

end

end BbsServer
