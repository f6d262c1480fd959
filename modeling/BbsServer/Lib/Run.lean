import Mathlib.Data.List.Forall2

/-!
# Runs

Finite runs of a transition relation with labels, runs whose steps all meet a
condition, and the invariant rule.
-/

namespace Runs

variable {σ ε : Type}

inductive Run (step : σ → ε → σ → Prop) (a : σ) : List ε → σ → Prop
  | nil : Run step a [] a
  | snoc {b c es e} : Run step a es b → step b e c → Run step a (es ++ [e]) c

/-- The steps that meet a condition on the state before and the label. -/
def Guarded (ok : σ → ε → Prop) (step : σ → ε → σ → Prop) (a : σ) (e : ε) (b : σ) : Prop :=
  ok a e ∧ step a e b

def Marked (step : σ → ε → σ → Prop) (a : σ) (x : σ × ε) (b : σ) : Prop := x.1 = a ∧ step a x.2 b

section
variable {step step' : σ → ε → σ → Prop}

theorem Run.mono (h : ∀ a e b, step a e b → step' a e b) {a b : σ} {es : List ε} (r : Run step a es b) :
    Run step' a es b := by
  induction r with
  | nil => exact .nil
  | snoc _ hs ih => exact .snoc ih (h _ _ _ hs)

theorem Run.unguard {ok : σ → ε → Prop} {a b : σ} {es : List ε} (r : Run (Guarded ok step) a es b) :
    Run step a es b :=
  r.mono fun _ _ _ h => h.2

theorem Run.append {a b c : σ} {es fs : List ε} (r : Run step a es b) (r' : Run step b fs c) :
    Run step a (es ++ fs) c := by
  induction r' with
  | nil => simpa using r
  | snoc _ hs ih => rw [← List.append_assoc]; exact .snoc ih hs

theorem Run.cons {a b c : σ} {e : ε} {es : List ε} (h : step a e b) (r : Run step b es c) : Run step a (e :: es) c :=
  (Run.snoc .nil h).append r

theorem Run.nil_inv {a b : σ} (r : Run step a [] b) : b = a := by
  generalize hes : ([] : List ε) = es at r
  cases r with
  | nil => rfl
  | snoc => simp at hes

theorem Run.split {a c : σ} {fs es : List ε} (r : Run step a (fs ++ es) c) :
    ∃ b, Run step a fs b ∧ Run step b es c := by
  generalize hes : fs ++ es = gs at r
  induction r generalizing es with
  | nil =>
    obtain ⟨rfl, rfl⟩ := List.append_eq_nil_iff.mp hes
    exact ⟨a, .nil, .nil⟩
  | @snoc b c gs e r hs ih =>
    rcases List.eq_nil_or_concat es with rfl | ⟨es', e', rfl⟩
    · rw [List.append_nil] at hes
      subst hes
      exact ⟨c, .snoc r hs, .nil⟩
    · rw [List.concat_eq_append, ← List.append_assoc] at hes
      obtain ⟨h1, h2⟩ := List.append_inj' hes rfl
      obtain ⟨b', r1, r2⟩ := ih h1
      cases h2
      exact ⟨b', r1, by rw [List.concat_eq_append]; exact .snoc r2 hs⟩

theorem Run.cons_inv {a c : σ} {e : ε} {es : List ε} (r : Run step a (e :: es) c) :
    ∃ b, step a e b ∧ Run step b es c := by
  obtain ⟨b, r1, r2⟩ := Run.split (show Run step a ([e] ++ es) c from r)
  refine ⟨b, ?_, r2⟩
  generalize hgs : [e] = gs at r1
  cases r1 with
  | nil => cases hgs
  | snoc r0 hs =>
    obtain ⟨h0, he⟩ := List.append_inj' (show [] ++ [e] = _ from hgs) rfl
    subst h0
    cases he
    rwa [r0.nil_inv] at hs

/-- The rule for a step that is a function. -/
theorem Run.det (hdet : ∀ a e b b', step a e b → step a e b' → b = b') {a b b' : σ} {es : List ε}
    (r : Run step a es b) (r' : Run step a es b') : b = b' := by
  induction es generalizing a with
  | nil => rw [r.nil_inv, r'.nil_inv]
  | cons e es ih =>
    obtain ⟨c, h, r⟩ := r.cons_inv
    obtain ⟨c', h', r'⟩ := r'.cons_inv
    rw [hdet a e c c' h h'] at r
    exact ih r r'

def exec (f : σ → ε → Option σ) : σ → List ε → Option σ
  | a, [] => some a
  | a, e :: es => (f a e).bind (exec f · es)

theorem Run.of_exec {f : σ → ε → Option σ} (hf : ∀ a e b, f a e = some b → step a e b) {a b : σ} {es : List ε}
    (h : exec f a es = some b) : Run step a es b := by
  induction es generalizing a with
  | nil => cases h; exact .nil
  | cons e es ih =>
    obtain ⟨c, hc, h⟩ := Option.bind_eq_some_iff.mp h
    exact .cons (hf _ _ _ hc) (ih h)

/-- A relation that steps with related labels keep leads from one run to another. -/
theorem Run.follow {σ' ε' : Type} {next : σ' → ε' → σ' → Prop} {R : σ → σ' → Prop} {E : ε → ε' → Prop}
    (hR : ∀ a e b a' e', R a a' → E e e' → step a e b → ∃ b', next a' e' b' ∧ R b b') {a b : σ} {a' : σ'}
    {es : List ε} {es' : List ε'} (r : Run step a es b) (ha : R a a') (he : List.Forall₂ E es es') :
    ∃ b', Run next a' es' b' ∧ R b b' := by
  induction he generalizing a a' with
  | nil =>
    rw [r.nil_inv]
    exact ⟨a', .nil, ha⟩
  | cons he _ ih =>
    obtain ⟨c, hs, r⟩ := r.cons_inv
    obtain ⟨c', hs', hc⟩ := hR _ _ _ _ _ ha he hs
    obtain ⟨b', r', hb⟩ := ih r hc
    exact ⟨b', .cons hs' r', hb⟩

/-- What holds at the start and is kept by every step holds at the end. -/
theorem Run.inv (I : σ → Prop) (hI : ∀ a e b, I a → step a e b → I b) {a b : σ} {es : List ε}
    (r : Run step a es b) (ha : I a) : I b := by
  induction r with
  | nil => exact ha
  | snoc _ hs ih => exact hI _ _ _ ih hs

/-- The invariant rule under an invariant `J` that is already known. -/
theorem Run.inv_under (J I : σ → Prop) (hJ : ∀ a e b, J a → step a e b → J b)
    (hI : ∀ a e b, J a → I a → step a e b → I b) {a b : σ} {es : List ε}
    (r : Run step a es b) (ja : J a) (ia : I a) : I b :=
  (r.inv (fun x => J x ∧ I x) (fun _ _ _ h hs => ⟨hJ _ _ _ h.1 hs, hI _ _ _ h.1 h.2 hs⟩) ⟨ja, ia⟩).2

/-! ## What only some steps bring about

`F` comes from the steps that have `Q`, in a run that has not come to its end: `L` holds wherever there is a step. -/

section
variable {L F : σ → Prop} {Q : σ → ε → Prop} (hL : ∀ a e b, step a e b → L a)
  (hF : ∀ a e b, step a e b → L b → (F b ↔ F a ∨ Q a e))
include hL hF

theorem Run.flag_stays {a b : σ} {es : List ε} (r : Run step a es b) (lb : L b) (fa : F a) : F b := by
  induction r with
  | nil => exact fa
  | snoc _ hs ih => exact (hF _ _ _ hs lb).mpr (.inl (ih (hL _ _ _ hs)))

theorem Run.flag_iff {a b : σ} {es : List ε} (r : Run step a es b) (lb : L b) : F b ↔ F a ∨
    ∃ es₁ e es₂ c d, es = es₁ ++ e :: es₂ ∧ Run step a es₁ c ∧ Q c e ∧ step c e d ∧ Run step d es₂ b := by
  constructor
  · intro fb
    induction r with
    | nil => exact .inl fb
    | @snoc c d es e r hs ih =>
      rcases (hF _ _ _ hs lb).mp fb with fc | hq
      · refine (ih (hL _ _ _ hs) fc).imp_right ?_
        rintro ⟨es₁, e', es₂, c', d', rfl, r₁, hq, hs', r₂⟩
        exact ⟨es₁, e', es₂ ++ [e], c', d', by simp, r₁, hq, hs', .snoc r₂ hs⟩
      · exact .inr ⟨es, e, [], c, d, rfl, r, hq, hs, .nil⟩
  · rintro (fa | ⟨es₁, e, es₂, c, d, -, -, hq, hs, r₂⟩)
    · exact r.flag_stays hL hF lb fa
    · refine r₂.flag_stays hL hF lb ((hF _ _ _ hs ?_).mpr (.inr hq))
      cases es₂ with
      | nil => rwa [← r₂.nil_inv]
      | cons =>
        obtain ⟨x, hx, -⟩ := r₂.cons_inv
        exact hL _ _ _ hx

end

/-! ## Safety and conditions on the steps -/

def Always (step : σ → ε → σ → Prop) (a : σ) (es : List ε) (I : σ → Prop) : Prop :=
  ∀ es₁ es₂ b, es = es₁ ++ es₂ → Run step a es₁ b → I b

theorem always_nil {I : σ → Prop} {a : σ} : Always step a [] I ↔ I a := by
  refine ⟨fun h => h [] [] a rfl .nil, fun ha es₁ es₂ b he r => ?_⟩
  rw [(List.append_eq_nil_iff.mp he.symm).1] at r
  rwa [r.nil_inv]

variable (hdet : ∀ a e b b', step a e b → step a e b' → b = b')
include hdet

theorem always_cons {I : σ → Prop} {a b : σ} {e : ε} {es : List ε} (h : step a e b) :
    Always step a (e :: es) I ↔ I a ∧ Always step b es I := by
  constructor
  · exact fun hI => ⟨hI [] _ a rfl .nil, fun es₁ es₂ c he r => hI (e :: es₁) es₂ c (by rw [he]; rfl) (.cons h r)⟩
  · rintro ⟨ha, hb⟩ es₁ es₂ c he r
    cases es₁ with
    | nil => rwa [r.nil_inv]
    | cons e' es₁ =>
      cases he
      obtain ⟨b', h', r⟩ := r.cons_inv
      rw [hdet _ _ _ _ h' h] at r
      exact hb es₁ es₂ c rfl r

def AlwaysStep (step : σ → ε → σ → Prop) (a : σ) (es : List ε) (Q : σ → ε → σ → Prop) : Prop :=
  ∀ es₁ e es₂ b c, es = es₁ ++ e :: es₂ → Run step a es₁ b → step b e c → Q b e c

omit hdet in
theorem alwaysStep_nil {Q : σ → ε → σ → Prop} {a : σ} : AlwaysStep step a [] Q :=
  fun _ _ _ _ _ he => by simp at he

theorem alwaysStep_cons {Q : σ → ε → σ → Prop} {a b : σ} {e : ε} {es : List ε} (h : step a e b) :
    AlwaysStep step a (e :: es) Q ↔ Q a e b ∧ AlwaysStep step b es Q := by
  constructor
  · exact fun hQ => ⟨hQ [] e es a b rfl .nil h,
      fun es₁ e' es₂ c d he r hs => hQ (e :: es₁) e' es₂ c d (by rw [he]; rfl) (.cons h r) hs⟩
  · rintro ⟨ha, hb⟩ es₁ e' es₂ c d he r hs
    cases es₁ with
    | nil =>
      cases he
      rw [r.nil_inv] at hs ⊢
      rwa [hdet _ _ _ _ hs h]
    | cons e₁ es₁ =>
      cases he
      obtain ⟨b', h', r⟩ := r.cons_inv
      rw [hdet _ _ _ _ h' h] at r
      exact hb es₁ e' es₂ c d rfl r hs

/-- Where a step keeps `I` and has `Q` exactly if it meets `ok`, a run is safe exactly if all its
steps meet `ok`. -/
theorem always_step_iff_guarded {ok : σ → ε → Prop} (J I : σ → Prop) (Q : σ → ε → σ → Prop)
    (hJ : ∀ a e b, J a → step a e b → J b) (hI : ∀ a e b, J a → I a → step a e b → (I b ∧ Q a e b ↔ ok a e)) {a b : σ}
    {es : List ε} (r : Run step a es b) (ja : J a) (ia : I a) :
    Always step a es I ∧ AlwaysStep step a es Q ↔ Run (Guarded ok step) a es b := by
  induction es generalizing a with
  | nil =>
    rw [r.nil_inv, always_nil]
    exact ⟨fun _ => .nil, fun _ => ⟨ia, alwaysStep_nil⟩⟩
  | cons e es ih =>
    obtain ⟨c, h, r⟩ := r.cons_inv
    rw [always_cons hdet h, alwaysStep_cons hdet h]
    constructor
    · rintro ⟨⟨-, hc⟩, hq, hqs⟩
      have ic := hc [] es c rfl .nil
      exact .cons ⟨(hI _ _ _ ja ia h).mp ⟨ic, hq⟩, h⟩ ((ih r (hJ _ _ _ ja h) ic).mp ⟨hc, hqs⟩)
    · intro rg
      obtain ⟨c', ⟨hok, h'⟩, rg⟩ := rg.cons_inv
      rw [hdet _ _ _ _ h' h] at rg
      obtain ⟨ic, hq⟩ := (hI _ _ _ ja ia h).mpr hok
      obtain ⟨hc, hqs⟩ := (ih r (hJ _ _ _ ja h) ic).mpr rg
      exact ⟨⟨ia, hc⟩, hq, hqs⟩

/-- The rule for a property `O` that shows a step that does not meet `ok`, where `ok` keeps the stronger `I`. -/
theorem always_iff_guarded_of {ok : σ → ε → Prop} (J I O : σ → Prop) (hJ : ∀ a e b, J a → step a e b → J b)
    (hO : ∀ a, J a → I a → O a) (hI : ∀ a e b, J a → I a → step a e b → ok a e → I b)
    (hok : ∀ a e b, J a → I a → step a e b → O b → ok a e) {a b : σ} {es : List ε} (r : Run step a es b)
    (ja : J a) (ia : I a) : Always step a es O ↔ Run (Guarded ok step) a es b := by
  induction es generalizing a with
  | nil =>
    rw [r.nil_inv, always_nil]
    exact ⟨fun _ => .nil, fun _ => hO a ja ia⟩
  | cons e es ih =>
    obtain ⟨c, h, r⟩ := r.cons_inv
    have jc := hJ _ _ _ ja h
    rw [always_cons hdet h]
    constructor
    · rintro ⟨-, hc⟩
      have ha := hok _ _ _ ja ia h (hc [] es c rfl .nil)
      exact .cons ⟨ha, h⟩ ((ih r jc (hI _ _ _ ja ia h ha)).mp hc)
    · intro rg
      obtain ⟨c', ⟨ha, h'⟩, rg⟩ := rg.cons_inv
      rw [hdet _ _ _ _ h' h] at rg
      exact ⟨hO a ja ia, (ih r jc (hI _ _ _ ja ia h ha)).mpr rg⟩

/-- The rule for an invariant that is kept exactly if the step meets `ok`. -/
theorem always_iff_guarded {ok : σ → ε → Prop} (J I : σ → Prop) (hJ : ∀ a e b, J a → step a e b → J b)
    (hI : ∀ a e b, J a → I a → step a e b → (I b ↔ ok a e)) {a b : σ} {es : List ε} (r : Run step a es b)
    (ja : J a) (ia : I a) : Always step a es I ↔ Run (Guarded ok step) a es b :=
  always_iff_guarded_of hdet J I I hJ (fun _ _ ia => ia) (fun _ _ _ ja ia h => (hI _ _ _ ja ia h).mpr)
    (fun _ _ _ ja ia h => (hI _ _ _ ja ia h).mp) r ja ia

/-- Where steps that meet `ok` keep `I` and have `Q`, a run of such steps has `Q` throughout. -/
theorem alwaysStep_of_guarded {ok : σ → ε → Prop} (J I : σ → Prop) (Q : σ → ε → σ → Prop)
    (hJ : ∀ a e b, J a → step a e b → J b) (hI : ∀ a e b, J a → I a → step a e b → ok a e → I b ∧ Q a e b) {a b : σ}
    {es : List ε} (r : Run (Guarded ok step) a es b) (ja : J a) (ia : I a) : AlwaysStep step a es Q := by
  induction es generalizing a with
  | nil => exact alwaysStep_nil
  | cons e es ih =>
    obtain ⟨c, ⟨hok, h⟩, r⟩ := r.cons_inv
    obtain ⟨ic, hq⟩ := hI _ _ _ ja ia h hok
    exact (alwaysStep_cons hdet h).mpr ⟨hq, ih r (hJ _ _ _ ja h) ic⟩

/-- The rule for a condition that keeps `I` and is what `Q` says of one step. -/
theorem alwaysStep_iff_guarded {ok : σ → ε → Prop} (J I : σ → Prop) (Q : σ → ε → σ → Prop)
    (hJ : ∀ a e b, J a → step a e b → J b) (hQ : ∀ a e b, J a → I a → step a e b → (Q a e b ↔ ok a e))
    (hI : ∀ a e b, J a → I a → step a e b → ok a e → I b) {a b : σ} {es : List ε} (r : Run step a es b) (ja : J a)
    (ia : I a) : AlwaysStep step a es Q ↔ Run (Guarded ok step) a es b := by
  refine ⟨fun h => ?_, fun rg => alwaysStep_of_guarded hdet J I Q hJ
    (fun _ _ _ ja ia h hok => ⟨hI _ _ _ ja ia h hok, (hQ _ _ _ ja ia h).mpr hok⟩) rg ja ia⟩
  induction es generalizing a with
  | nil =>
    rw [r.nil_inv]
    exact .nil
  | cons e es ih =>
    obtain ⟨c, hs, r⟩ := r.cons_inv
    obtain ⟨hq, hqs⟩ := (alwaysStep_cons hdet hs).mp h
    have hok := (hQ _ _ _ ja ia hs).mp hq
    exact .cons ⟨hok, hs⟩ (ih r (hJ _ _ _ ja hs) (hI _ _ _ ja ia hs hok) hqs)

end

end Runs
