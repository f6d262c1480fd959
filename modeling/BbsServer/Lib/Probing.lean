import Mathlib.Data.Finset.Card
import Mathlib.Data.Finset.Range

/-!
# Probing

A table is probed at `f 0`, `f 1`, ... until a free place is found.
-/

namespace Probing

variable {α : Type} [DecidableEq α] (f : Nat → α)

/-- Whichever places are taken, fewer than `k`, one of the first probes is free: of one more than are taken. -/
def Progress (k : Nat) : Prop := ∀ S : Finset α, S.card < k → ∃ i ≤ S.card, f i ∉ S

def Distinct (k : Nat) : Prop := ∀ i j, i < j → j < k → f i ≠ f j

theorem Distinct.progress {f : Nat → α} {k : Nat} (h : Distinct f k) : Progress f k := by
  intro S hS
  by_contra hno
  have hall : ∀ i ∈ Finset.range (S.card + 1), f i ∈ S := fun i hi =>
    by_contra fun hf => hno ⟨i, Nat.lt_succ_iff.mp (Finset.mem_range.mp hi), hf⟩
  have hinj : Set.InjOn f (Finset.range (S.card + 1)) := by
    intro i hi j hj e
    rw [Finset.mem_coe, Finset.mem_range] at hi hj
    rcases Nat.lt_trichotomy i j with hlt | rfl | hlt
    · exact absurd e (h i j hlt (by omega))
    · rfl
    · exact absurd e.symm (h j i hlt (by omega))
  have := Finset.card_le_card_of_injOn f hall hinj
  rw [Finset.card_range] at this
  omega

/-- Two equal probes fail where all places before the second one are taken. -/
theorem Progress.distinct {f : Nat → α} {k : Nat} (h : Progress f k) : Distinct f k := by
  intro i j hij hj e
  have hcard : ((Finset.range j).image f).card ≤ j := Finset.card_image_le.trans_eq (Finset.card_range j)
  obtain ⟨m, hm, hfree⟩ := h ((Finset.range j).image f) (by omega)
  apply hfree
  rcases Nat.lt_or_ge m j with hlt | hge
  · exact Finset.mem_image_of_mem f (Finset.mem_range.mpr hlt)
  · rw [show m = j by omega, ← e]
    exact Finset.mem_image_of_mem f (Finset.mem_range.mpr hij)

theorem progress_iff {k : Nat} : Progress f k ↔ Distinct f k := ⟨Progress.distinct, Distinct.progress⟩

end Probing
