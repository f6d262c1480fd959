import BbsServer.Lib.Run

/-!
# Two computations side by side

Rules for two computations that may stop with an error (`Both`), and for two runs whose visible labels are the same
(`unwinding`).
-/

namespace Relational

open Runs

section
variable {ε α β γ δ : Type} {R : α → β → Prop} {S : γ → δ → Prop} {x : Except ε α} {y : Except ε β}
  {f : α → Except ε γ} {g : β → Except ε δ}

def Both (R : α → β → Prop) (x : Except ε α) (y : Except ε β) : Prop := ∀ ⦃a b⦄, x = .ok a → y = .ok b → R a b

theorem both_ok {a : α} {b : β} (h : R a b) : Both (ε := ε) R (.ok a) (.ok b) := by
  intro a' b' ha hb
  cases ha
  cases hb
  exact h

theorem both_error (e : ε) : Both R (.error e) y := fun _ _ h => by cases h

theorem Both.mono {R' : α → β → Prop} (h : Both R x y) (hR : ∀ a b, R a b → R' a b) : Both R' x y :=
  fun _ _ ha hb => hR _ _ (h ha hb)

theorem Both.returns (h : Both R x y) : Both (fun a b => R a b ∧ x = .ok a ∧ y = .ok b) x y :=
  fun _ _ ha hb => ⟨h ha hb, ha, hb⟩

theorem bind_returns {c : γ} (h : (x >>= f) = .ok c) : ∃ a, x = .ok a ∧ f a = .ok c := by
  cases x with
  | error => cases h
  | ok a => exact ⟨a, rfl, h⟩

theorem Both.bind (h : Both R x y) (hf : ∀ a b, R a b → Both S (f a) (g b)) : Both S (x >>= f) (y >>= g) := by
  intro c d hc hd
  obtain ⟨a, ha, hc⟩ := bind_returns hc
  obtain ⟨b, hb, hd⟩ := bind_returns hd
  exact hf a b (h ha hb) hc hd

theorem both_value {g : α → Except ε δ} (hf : ∀ a, x = .ok a → Both S (f a) (g a)) : Both S (x >>= f) (x >>= g) := by
  intro c d hc hd
  obtain ⟨a, ha, hc⟩ := bind_returns hc
  obtain ⟨b, hb, hd⟩ := bind_returns hd
  obtain rfl : a = b := Except.ok.inj (ha.symm.trans hb)
  exact hf a ha hc hd

end

/-! ## Runs with the same visible labels -/

section
variable {σ ε : Type} {step : σ → ε → σ → Prop} (visible : ε → Bool) (J : σ → Prop) (R : σ → σ → Prop)
  (hJ : ∀ a e b, J a → step a e b → J b)
  (hboth : ∀ a a' e b b', J a → J a' → R a a' → visible e → step a e b → step a' e b' → R b b')
  (hhidden : ∀ a a' e b, J a → J a' → R a a' → ¬ visible e → step a e b → R b a')
  (hsymm : ∀ a a', R a a' → R a' a)
include hJ hhidden

theorem unwinding_hidden {a a' b : σ} {es : List ε} (r : Run step a es b) (ja : J a) (ja' : J a') (h : R a a')
    (hes : es.filter visible = []) : R b a' := by
  induction es generalizing a with
  | nil => rwa [r.nil_inv]
  | cons e es ih =>
    obtain ⟨c, hs, r⟩ := r.cons_inv
    have he : ¬ visible e := List.filter_eq_nil_iff.mp hes e (List.mem_cons_self ..)
    rw [List.filter_cons_of_neg he] at hes
    exact ih r (hJ _ _ _ ja hs) (hhidden _ _ _ _ ja ja' h he hs) hes

include hboth hsymm

/-- **Unwinding**: what visible steps on both sides and a hidden step on one side keep is kept by two runs that have
the same visible labels. -/
theorem unwinding {a a' b b' : σ} {es fs : List ε} (r : Run step a es b) (r' : Run step a' fs b') (ja : J a)
    (ja' : J a') (h : R a a') (hes : es.filter visible = fs.filter visible) : R b b' := by
  induction es generalizing a a' fs with
  | nil =>
    rw [r.nil_inv]
    exact hsymm _ _ (unwinding_hidden visible J R hJ hhidden r' ja' ja (hsymm _ _ h) hes.symm)
  | cons e es ih =>
    obtain ⟨c, hs, r⟩ := r.cons_inv
    by_cases he : visible e
    · rw [List.filter_cons_of_pos he] at hes
      induction fs generalizing a' with
      | nil => cases hes
      | cons f fs ihf =>
        obtain ⟨c', hs', rest⟩ := r'.cons_inv
        by_cases hf : visible f
        · rw [List.filter_cons_of_pos hf] at hes
          obtain ⟨rfl, htail⟩ := List.cons.inj hes
          exact ih r rest (hJ _ _ _ ja hs) (hJ _ _ _ ja' hs') (hboth _ _ _ _ _ ja ja' h he hs hs') htail
        · rw [List.filter_cons_of_neg hf] at hes
          exact ihf rest (hJ _ _ _ ja' hs') (hsymm _ _ (hhidden _ _ _ _ ja' ja (hsymm _ _ h) hf hs')) hes
    · rw [List.filter_cons_of_neg he] at hes
      exact ih r r' (hJ _ _ _ ja hs) ja' (hhidden _ _ _ _ ja ja' h he hs) hes

end

end Relational
