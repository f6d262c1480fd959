import Mathlib.Data.List.Forall2
import BbsServer.Lib.Run

/-!
# Simulation

One system follows another along a function of its states: from a state of an invariant, a step is a step of the other
system with a label related to it and to the state before, or is not seen there.
-/

namespace Runs

variable {σ ε τ κ : Type}

def Simulates (step : σ → ε → σ → Prop) (next : τ → κ → τ → Prop) (J : σ → Prop) (abs : σ → τ)
    (E : κ → σ × ε → Prop) : Prop :=
  ∀ ⦃a e b⦄, J a → step a e b → abs b = abs a ∨ ∃ k, E k (a, e) ∧ next (abs a) k (abs b)

/-- Each label of the run that follows is related to a step of the one that is followed. -/
theorem related_mem {α : Type} {E : κ → α → Prop} {ks : List κ} {xs : List α} (h : List.SublistForall₂ E ks xs) :
    ∀ k ∈ ks, ∃ x ∈ xs, E k x := by
  induction h with
  | nil => exact nofun
  | cons hk _ ih =>
    refine List.forall_mem_cons.mpr ⟨⟨_, List.mem_cons_self .., hk⟩, fun k hm => ?_⟩
    obtain ⟨x, hx, hkx⟩ := ih k hm
    exact ⟨x, List.mem_cons_of_mem _ hx, hkx⟩
  | cons_right _ ih =>
    intro k hm
    obtain ⟨x, hx, hkx⟩ := ih k hm
    exact ⟨x, List.mem_cons_of_mem _ hx, hkx⟩

section
variable {step : σ → ε → σ → Prop} {next : τ → κ → τ → Prop} {J : σ → Prop} {abs : σ → τ} {E : κ → σ × ε → Prop}
  (hsim : Simulates step next J abs E)
include hsim

theorem Simulates.guard (ok : σ → ε → Prop) :
    Simulates (Guarded ok step) next J abs fun k x => E k x ∧ ok x.1 x.2 := by
  intro a e b ja hs
  exact (hsim ja hs.2).imp_right fun ⟨k, hk, hn⟩ => ⟨k, ⟨hk, hs.1⟩, hn⟩

variable (hJ : ∀ a e b, J a → step a e b → J b)
include hJ

/-- A run is followed by one whose labels are related to some of its own steps, in order. -/
theorem Simulates.run {a b : σ} {es : List ε} (r : Run step a es b) (ja : J a) :
    ∃ xs ks, xs.map (·.2) = es ∧ Run (Marked step) a xs b ∧ Run next (abs a) ks (abs b) ∧
    List.SublistForall₂ E ks xs := by
  induction es generalizing a with
  | nil =>
    rw [r.nil_inv]
    exact ⟨[], [], rfl, .nil, .nil, .nil⟩
  | cons e es ih =>
    obtain ⟨c, hs, r⟩ := r.cons_inv
    obtain ⟨xs, ks, rfl, rx, rk, hks⟩ := ih r (hJ _ _ _ ja hs)
    have rx : Run (Marked step) a ((a, e) :: xs) b := .cons ⟨rfl, hs⟩ rx
    rcases hsim ja hs with heq | ⟨k, hk, hn⟩
    · rw [heq] at rk
      exact ⟨_, ks, rfl, rx, rk, .cons_right hks⟩
    · exact ⟨_, k :: ks, rfl, rx, .cons hn rk, .cons hk hks⟩

end

end Runs
