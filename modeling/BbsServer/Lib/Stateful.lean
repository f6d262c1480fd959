import Mathlib.Algebra.Group.Int.Defs
import Mathlib.Algebra.GroupWithZero.Nat

/-!
# Programs with a state next to pure ones

A program over a state is compared with one that has no state: it fails where that one fails, and otherwise has
its result (`Implements`), with a condition on the state before and one on the state afterwards.
-/

namespace Stateful

variable {σ ε ε' α β : Type}

/-- From the states with `Pre`, `f` fails as `x` does, or has the result of `x` and leads to a state with `Post`;
`e` is what an error of `x` is here. -/
def Implements (e : ε → ε') (Pre : σ → Prop) (f : StateT σ (Except ε') α) (x : Except ε α) (Post : σ → Prop) : Prop :=
  ∀ s, Pre s → (∀ h, x = .error h → f s = .error (e h)) ∧ ∀ a, x = .ok a → ∃ s', f s = .ok (a, s') ∧ Post s'

def lift (e : ε → ε') (x : Except ε α) : StateT σ (Except ε') α := fun s =>
  match x with
  | .error h => .error (e h)
  | .ok a => .ok (a, s)

section
variable {e : ε → ε'} {Pre Mid Post : σ → Prop} {f : StateT σ (Except ε') α} {x : Except ε α} {a : α}

theorem implements_ok : Implements e Pre f (.ok a) Post ↔ ∀ s, Pre s → ∃ s', f s = .ok (a, s') ∧ Post s' := by
  refine forall₂_congr fun s _ => ⟨fun h => h.2 a rfl, fun h => ⟨nofun, ?_⟩⟩
  rintro _ ⟨⟩
  exact h

theorem Implements.pure (h : ∀ s, Pre s → Post s) : Implements e Pre (Pure.pure a) (.ok a) Post :=
  implements_ok.mpr fun s hs => ⟨s, rfl, h s hs⟩

theorem Implements.lift : Implements e Pre (lift e x) x Pre := by
  intro s hs
  refine ⟨?_, ?_⟩
  · rintro h rfl
    rfl
  · rintro a rfl
    exact ⟨s, rfl, hs⟩

theorem Implements.bind {g : α → StateT σ (Except ε') β} {y : α → Except ε β} (hf : Implements e Pre f x Mid)
    (hg : ∀ a, x = .ok a → Implements e Mid (g a) (y a) Post) : Implements e Pre (f >>= g) (x >>= y) Post := by
  intro s hs
  cases x with
  | error h =>
    have hfs : (f >>= g) s = .error (e h) := by
      show (f s >>= _) = _
      rw [(hf s hs).1 h rfl]
      rfl
    refine ⟨?_, fun b hb => ?_⟩
    · rintro _ ⟨⟩
      exact hfs
    · cases hb
  | ok a =>
    obtain ⟨s', hfs, hs'⟩ := (hf s hs).2 a rfl
    have hbind : (f >>= g) s = g a s' := by
      show (f s >>= _) = _
      rw [hfs]
      rfl
    rw [hbind]
    exact hg a rfl s' hs'

theorem run_bind_ok {g : α → StateT σ (Except ε') β} {s : σ} {y : β × σ} (h : (f >>= g) s = .ok y) :
    ∃ a s', f s = .ok (a, s') ∧ g a s' = .ok y := by
  change (f s >>= fun z => g z.1 z.2) = _ at h
  cases hf : f s with
  | error err =>
    rw [hf] at h
    cases h
  | ok z =>
    rw [hf] at h
    exact ⟨z.1, z.2, rfl, h⟩

theorem run_lift_ok {s : σ} {y : α × σ} (h : Stateful.lift e x s = .ok y) : x = .ok y.1 ∧ y.2 = s := by
  unfold Stateful.lift at h
  split at h
  · cases h
  · cases h
    exact ⟨rfl, rfl⟩

theorem Implements.step {g : α → StateT σ (Except ε') β} {y : Except ε β} (hf : Implements e Pre f (.ok a) Mid)
    (hg : Implements e Mid (g a) y Post) : Implements e Pre (f >>= g) y Post := by
  refine (hf.bind (y := fun _ => y) fun b hb => ?_)
  cases hb
  exact hg

theorem Implements.ite {p : Prop} [Decidable p] {f' : StateT σ (Except ε') α} {x' : Except ε α}
    (h : p → Implements e Pre f x Post)
    (h' : ¬ p → Implements e Pre f' x' Post) : Implements e Pre (if p then f else f') (if p then x else x') Post := by
  split
  · exact h ‹_›
  · exact h' ‹_›

/-- One program after the other, each of which counts on where the one before has led. -/
theorem Implements.mapM' {ι : Type} {I : Nat → σ → Prop} {f : ι → StateT σ (Except ε') α} {x : ι → Except ε α}
    {n : ι → Nat} (h : ∀ i k, Implements e (I k) (f i) (x i) (I (k + n i))) : ∀ (l : List ι) (k : Nat),
    Implements e (I k) (l.mapM' f) (l.mapM' x) (I (k + (l.map n).sum))
  | [], _ => .pure fun _ hs => hs
  | i :: l, k => by
    rw [List.map_cons, List.sum_cons, ← Nat.add_assoc]
    exact (h i k).bind fun _ _ => (Implements.mapM' h l _).bind fun _ _ => .pure fun _ hs => hs

end

end Stateful
