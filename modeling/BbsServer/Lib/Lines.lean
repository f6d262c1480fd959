import Mathlib.Data.List.Basic

/-!
# Lines

A list split after each separator.
-/

namespace Lines

variable {α : Type}

def split [DecidableEq α] (sep : α) : List α → List (List α)
  | [] => []
  | x :: l =>
    if x = sep then [x] :: split sep l
    else
      match split sep l with
      | [] => [[x]]
      | y :: ys => (x :: y) :: ys

def Terminated (sep : α) (l : List α) : Prop := l = [] ∨ ∃ a, l = a ++ [sep]

section
variable {sep : α} {a b l : List α}

theorem split_append [DecidableEq α] (h : sep ∉ a) : split sep (a ++ sep :: b) = (a ++ [sep]) :: split sep b := by
  induction a with
  | nil => simp [split]
  | cons x a ih =>
    rw [List.mem_cons, not_or] at h
    rw [List.cons_append, split, if_neg (Ne.symm h.1), ih h.2]
    rfl

theorem split_eq_nil [DecidableEq α] : split sep l = [] ↔ l = [] := by
  cases l with
  | nil => simp [split]
  | cons x l =>
    simp only [split]
    split
    · simp
    · split <;> simp

theorem Terminated.tail (h : Terminated sep (a ++ sep :: b)) : Terminated sep b := by
  rcases h with h | ⟨c, h⟩
  · simp at h
  · rcases List.eq_nil_or_concat b with rfl | ⟨b', x, rfl⟩
    · exact .inl rfl
    · right
      refine ⟨b', ?_⟩
      have := congrArg List.getLast? h
      simp only [List.concat_eq_append] at this ⊢
      rw [show a ++ sep :: (b' ++ [x]) = (a ++ sep :: b') ++ [x] by simp] at this
      simp only [List.getLast?_append, List.getLast?_singleton, Option.some_or, Option.some.injEq] at this
      rw [this]

theorem Terminated.eq_nil (h : Terminated sep l) (hm : sep ∉ l) : l = [] := by
  rcases h with rfl | ⟨a, rfl⟩
  · rfl
  · simp at hm

theorem Terminated.first (h : Terminated sep l) (hne : l ≠ []) : ∃ a b, l = a ++ sep :: b ∧ sep ∉ a := by
  have hm : sep ∈ l := by
    rcases h with rfl | ⟨a, rfl⟩
    · exact absurd rfl hne
    · simp
  obtain ⟨a, b, rfl, ha⟩ := List.eq_append_cons_of_mem hm
  exact ⟨a, b, rfl, ha⟩

/-- The text behind the last separator is determined. -/
theorem Terminated.append_inj {x y : List α} (ha : Terminated sep a) (hb : Terminated sep b) (hx : sep ∉ x)
    (hy : sep ∉ y) (h : a ++ x = b ++ y) : a = b ∧ x = y := by
  -- what one list has more than the other ends with a separator, and has none
  have aux : ∀ {a b c x y : List α}, Terminated sep b → sep ∉ x → b = a ++ c → x = c ++ y → a = b ∧ x = y := by
    rintro a b c x y hb hx rfl rfl
    rcases List.eq_nil_or_concat c with rfl | ⟨c, z, rfl⟩
    · simp
    rcases hb with hb | ⟨d, hd⟩
    · simp at hb
    · rw [List.concat_eq_append, ← List.append_assoc] at hd
      obtain ⟨-, hz⟩ := List.append_inj' hd rfl
      cases hz
      simp at hx
  rcases List.append_eq_append_iff.mp h with ⟨c, hb', hx'⟩ | ⟨c, ha', hy'⟩
  · exact aux hb hx hb' hx'
  · exact (aux ha hy ha' hy').imp Eq.symm Eq.symm

theorem Terminated.flatten {ls : List (List α)} (h : ∀ l ∈ ls, Terminated sep l) : Terminated sep ls.flatten := by
  rcases List.eq_nil_or_concat ls with rfl | ⟨ls, l, rfl⟩
  · exact .inl rfl
  induction ls with
  | nil => simpa using h l (by simp)
  | cons m ls ih =>
    have hm : Terminated sep m := h m (by simp)
    rw [List.concat_eq_append, List.cons_append, List.flatten_cons]
    rcases ih (fun x hx => h x (by simp at hx ⊢; tauto)) with h' | ⟨a, h'⟩
    · rw [List.concat_eq_append] at h'
      rwa [h', List.append_nil]
    · rw [List.concat_eq_append] at h'
      exact .inr ⟨m ++ a, by rw [h', List.append_assoc]⟩

/-- Induction along the lines. -/
theorem line_induction [DecidableEq α] (sep : α) {p : List α → Prop} (piece : ∀ l, sep ∉ l → p l)
    (line : ∀ a y, sep ∉ a → p y → p (a ++ sep :: y)) (l : List α) : p l := by
  induction hn : l.length using Nat.strongRecOn generalizing l with
  | ind n ih =>
    by_cases hl : sep ∈ l
    · obtain ⟨a, y, rfl, ha⟩ := List.eq_append_cons_of_mem hl
      exact line a y ha (ih y.length (by simp at hn; omega) y rfl)
    · exact piece l hl

end

/-! ## Dropping an element in front of another -/

section
variable [DecidableEq α] {x y : α} {a b l : List α}

def dropBefore (x y : α) : List α → List α
  | [] => []
  | c :: l => if c = x ∧ l.head? = some y then dropBefore x y l else c :: dropBefore x y l

def Parts (x y : α) (a b : List α) : Prop := a.getLast? = some x ∧ b.head? = some y

theorem dropBefore_of_not_mem (h : y ∉ l) : dropBefore x y l = l := by
  induction l with
  | nil => rfl
  | cons c l ih =>
    rw [List.mem_cons, not_or] at h
    rw [dropBefore, if_neg (fun hc => h.2 (List.mem_of_head? hc.2)), ih h.2]

theorem count_dropBefore (h : x ≠ y) : (dropBefore x y l).count y = l.count y := by
  induction l with
  | nil => rfl
  | cons c l ih =>
    rw [dropBefore]
    split
    · rename_i hc
      rw [ih, hc.1, List.count_cons_of_ne h]
    · rw [List.count_cons, List.count_cons, ih]

theorem dropBefore_append (h : ¬ Parts x y a b) : dropBefore x y (a ++ b) = dropBefore x y a ++ dropBefore x y b := by
  induction a with
  | nil => rfl
  | cons c a ih =>
    cases a with
    | nil =>
      have hc : ¬ (c = x ∧ b.head? = some y) := fun hc => h ⟨by rw [hc.1]; rfl, hc.2⟩
      simp [dropBefore, hc]
    | cons d a =>
      have hpart : ¬ Parts x y (d :: a) b := fun hp => h ⟨by rw [List.getLast?_cons_cons]; exact hp.1, hp.2⟩
      have := ih hpart
      simp only [List.cons_append] at this ⊢
      rw [dropBefore, this]
      conv_rhs => rw [dropBefore]
      by_cases hc : c = x ∧ d = y <;> simp [hc]

theorem length_dropBefore_parts (h : Parts x y a b) :
    (dropBefore x y (a ++ b)).length + 1 = (dropBefore x y a).length + (dropBefore x y b).length := by
  obtain ⟨a, rfl⟩ : ∃ c, a = c ++ [x] := List.getLast?_eq_some_iff.mp h.1
  induction a with
  | nil =>
    rw [List.nil_append, List.singleton_append, dropBefore, if_pos ⟨rfl, h.2⟩]
    simp [dropBefore]
    omega
  | cons c a ih =>
    have := ih ⟨by simp, h.2⟩
    have hhead : (a ++ [x] ++ b).head? = (a ++ [x]).head? := by
      cases a <;> rfl
    rw [List.cons_append, List.cons_append, dropBefore, dropBefore, hhead]
    split
    · exact this
    · simp only [List.length_cons]
      omega

theorem length_dropBefore_append_le :
    (dropBefore x y (a ++ b)).length ≤ (dropBefore x y a).length + (dropBefore x y b).length := by
  by_cases h : Parts x y a b
  · have := length_dropBefore_parts h
    omega
  · exact Nat.le_of_eq (by rw [dropBefore_append h, List.length_append])

theorem length_dropBefore_flatten_le : ∀ ls : List (List α),
    (dropBefore x y ls.flatten).length ≤ (ls.map (dropBefore x y)).flatten.length
  | [] => Nat.le_refl _
  | l :: ls => by
    rw [List.flatten_cons, List.map_cons, List.flatten_cons, List.length_append]
    exact Nat.le_trans length_dropBefore_append_le (Nat.add_le_add_left (length_dropBefore_flatten_le ls) _)

/-- Piece by piece is as good as at once exactly if no cut parts `x` and `y`. -/
theorem flatten_dropBefore_iff : ∀ {ls : List (List α)}, (∀ l ∈ ls, l ≠ []) →
    ((ls.map (dropBefore x y)).flatten = dropBefore x y ls.flatten ↔ ls.IsChain fun a b => ¬ Parts x y a b)
  | [], _ => by simp [dropBefore]
  | [l], _ => by simp
  | a :: b :: ls, hne => by
    have ih := flatten_dropBefore_iff fun l hl => hne l (List.mem_cons_of_mem _ hl)
    have hparts : Parts x y a (b :: ls).flatten ↔ Parts x y a b := by
      have hb : b ≠ [] := hne b (by simp)
      rw [Parts, Parts, List.flatten_cons, List.head?_append_of_ne_nil _ hb]
    rw [List.isChain_cons_cons, ← ih, List.map_cons, List.flatten_cons, List.flatten_cons]
    by_cases h : Parts x y a b
    · have hlen := length_dropBefore_parts (hparts.mpr h)
      have hle := length_dropBefore_flatten_le (b :: ls) (x := x) (y := y)
      refine ⟨fun e => ?_, fun e => absurd h e.1⟩
      rw [← e, List.length_append] at hlen
      omega
    · rw [dropBefore_append (hparts.not.mpr h), List.append_cancel_left_eq]
      exact ⟨fun e => ⟨h, e⟩, fun e => e.2⟩

end

end Lines
