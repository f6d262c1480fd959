import BbsServer.Lib.CStr

/-!
# Blocks of memory

A block is the list of its bytes, and an access outside it is `none`.
-/

namespace Block

open CStr

def load (m : Bytes) (i : Int) : Option UInt8 := if 0 ≤ i then m[i.toNat]? else none

def store (m : Bytes) (i : Int) (b : UInt8) : Option Bytes :=
  if 0 ≤ i ∧ i < m.length then some (m.set i.toNat b) else none

def fill (m : Bytes) (i : Nat) (bs : Bytes) : Option Bytes :=
  if i + bs.length ≤ m.length then some (m.take i ++ bs ++ m.drop (i + bs.length)) else none

def strchr (c : UInt8) : Bytes → Option (Option Nat)
  | [] => none
  | b :: m => if b = c then some (some 0) else if b = 0 then some none else (strchr c m).map (·.map (· + 1))

def strncpy (dst src : Bytes) (n : Nat) : Option Bytes :=
  if n ≤ src.length ∨ 0 ∈ src then
    fill dst 0 (cstr (src.take n) ++ List.replicate (n - (cstr (src.take n)).length) 0)
  else none

def memmove (m : Bytes) (dst src n : Nat) : Option Bytes :=
  if src + n ≤ m.length then fill m dst ((m.drop src).take n) else none

def puts (m t : Bytes) : Option Bytes := fill m 0 (t ++ [0])

def gets (m : Bytes) : Option Bytes := if 0 ∈ m then some (cstr m) else none

def StringAt (m : Bytes) (i : Nat) (t : Bytes) : Prop := t ++ [0] <+: m.drop i

section
variable {m a b t : Bytes} {c x : UInt8} {i j n : Nat}

theorem load_mid : load (a ++ x :: b) a.length = some x := by simp [load]

theorem load_neg {i : Int} (h : i < 0) : load m i = none := if_neg (by omega)

theorem store_mid : store (a ++ x :: b) a.length c = some (a ++ c :: b) := by
  rw [store, if_pos (by rw [List.length_append, List.length_cons]; omega), Int.toNat_natCast,
    List.set_append_right _ _ (Nat.le_refl _), Nat.sub_self]
  rfl

theorem store_nat (h : i < m.length) : store m i c = some (m.set i c) := if_pos (by omega)

theorem store_eq_none {i : Int} (h : i < 0 ∨ m.length ≤ i) : store m i c = none := if_neg (by omega)

theorem fill_append (h : n = a.length) (hx : m.length = t.length) : fill (a ++ m ++ b) n t = some (a ++ t ++ b) := by
  subst h
  rw [fill, if_pos (by simp; omega), List.append_assoc a m b, List.take_left, ← hx, ← List.append_assoc,
    ← List.length_append, List.drop_left]

theorem strchr_eq (hc : c ≠ 0) : strchr c m = if c ∈ m ∨ 0 ∈ m then some (CStr.strchr (cstr m) c) else none := by
  induction m with
  | nil => rfl
  | cons x m ih =>
    by_cases hx : x = c
    · subst hx
      rw [strchr, if_pos rfl, if_pos (.inl (List.mem_cons_self ..)), cstr,
        List.takeWhile_cons_of_pos (by simpa using hc)]
      exact (congrArg some (strchr_append (a := []) (by simp))).symm
    by_cases h0 : x = 0
    · subst h0
      rw [strchr, if_neg hx, if_pos rfl, if_pos (.inr (List.mem_cons_self ..)), cstr,
        List.takeWhile_cons_of_neg (by simp)]
      rfl
    · have hcstr : cstr (x :: m) = x :: cstr m := List.takeWhile_cons_of_pos (by simpa using h0)
      have hnext : CStr.strchr (x :: cstr m) c = (CStr.strchr (cstr m) c).map (· + 1) := by
        rw [CStr.strchr, List.findIdx?_cons, if_neg (by simpa using hx)]
        rfl
      rw [strchr, if_neg hx, if_neg h0, ih, hcstr, hnext]
      simp only [List.mem_cons, Ne.symm hx, Ne.symm h0, false_or]
      split <;> rfl

theorem length_cstr_take_le (t : Bytes) (n : Nat) : (cstr (t.take n)).length ≤ n :=
  (List.IsPrefix.length_le <| cstr_prefix _).trans (by rw [List.length_take]; exact Nat.min_le_left ..)

theorem length_fill (h : fill m i t = some a) : a.length = m.length := by
  unfold fill at h
  split at h
  · cases h
    rw [List.length_append, List.length_append, List.length_take, List.length_drop]
    omega
  · cases h

theorem fill_some (h : i + t.length ≤ m.length) : ∃ a, fill m i t = some a := ⟨_, if_pos h⟩

theorem StringAt.cstr (h : StringAt m i t) (h0 : 0 ∉ t) : CStr.cstr (m.drop i) = t := by
  obtain ⟨r, hr⟩ := h
  rw [← hr, List.append_assoc, List.singleton_append, cstr_append_nul, cstr_of_nul_not_mem h0]

theorem stringAt_fill (h : fill m i (t ++ [0]) = some a) : StringAt a i t := by
  unfold fill at h
  split at h
  · rename_i hle
    cases h
    rw [StringAt, List.append_assoc, List.drop_append_of_le_length (by rw [List.length_take]; omega),
      List.drop_take_self, List.nil_append]
    exact List.prefix_append ..
  · cases h

theorem StringAt.fill (h : StringAt m i t) (hj : i + t.length < j) (hf : Block.fill m j b = some a) :
    StringAt a i t := by
  unfold Block.fill at hf
  split at hf
  · rename_i hle
    cases hf
    have htake : t ++ [0] <+: (m.drop i).take (j - i) := by
      refine List.prefix_take_iff.mpr ⟨h, ?_⟩
      rw [List.length_append, List.length_singleton]
      omega
    rw [StringAt, List.append_assoc, List.drop_append_of_le_length (by rw [List.length_take]; omega), List.drop_take]
    exact htake.trans (List.prefix_append ..)
  · cases hf

theorem length_strncpy (h : strncpy m t n = some a) : a.length = m.length := by
  unfold strncpy at h
  split at h
  · exact length_fill h
  · cases h

theorem puts_eq (m t : Bytes) : puts m t =
    if t.length < m.length then some (t ++ 0 :: m.drop (t.length + 1)) else none := by
  unfold puts fill
  rw [Nat.zero_add, List.length_append, List.length_singleton, List.take_zero, List.nil_append]
  by_cases h : t.length < m.length
  · rw [if_pos (Nat.succ_le_of_lt h), if_pos h, List.append_assoc]
    rfl
  · rw [if_neg (fun h' => h (Nat.lt_of_succ_le h')), if_neg h]

theorem gets_append_nul (b : Bytes) (h0 : 0 ∉ t) : gets (t ++ 0 :: b) = some t := by
  rw [gets, if_pos (by simp), cstr_append_nul, cstr_of_nul_not_mem h0]

/-- All `n` bytes are written. -/
theorem strncpy_eq_none (h : m.length < n) : strncpy m t n = none := by
  unfold strncpy
  split
  · have := length_cstr_take_le t n
    exact if_neg (by rw [List.length_append, List.length_replicate]; omega)
  · rfl

theorem strncpy_whole (ht : n ≤ t.length) (h0 : 0 ∉ t.take n) (hm : n < m.length) :
    (strncpy m t n).bind (store · n 0) = some (t.take n ++ 0 :: m.drop (n + 1)) := by
  have hlen : (t.take n).length = n := List.length_take_of_le ht
  have hcopy : strncpy m t n = some (t.take n ++ m.drop n) := by
    rw [strncpy, if_pos (.inl ht), cstr_of_nul_not_mem h0, hlen, Nat.sub_self, List.replicate_zero,
      List.append_nil, fill, if_pos (by omega), List.take_zero, List.nil_append, hlen, Nat.zero_add]
  rw [hcopy, Option.bind_some, List.drop_eq_getElem_cons hm]
  generalize t.take n = a at hlen
  generalize m.drop (n + 1) = b
  generalize m[n] = x
  subst hlen
  exact store_mid

/-- A block one byte longer than what is copied, which a NUL ends. -/
theorem strncpy_terminated (h : n ≤ t.length ∨ 0 ∈ t) (hm : m.length = n + 1) :
    ((strncpy m t n).bind (store · n 0)) =
      some (cstr (t.take n) ++ List.replicate (n - (cstr (t.take n)).length) 0 ++ [0]) := by
  obtain ⟨a, x, rfl⟩ := (List.eq_nil_or_concat m).resolve_left (by rintro rfl; simp at hm)
  rw [List.concat_eq_append] at hm ⊢
  rw [List.length_append, List.length_singleton, Nat.add_right_cancel_iff] at hm
  have hlen : (cstr (t.take n) ++ List.replicate (n - (cstr (t.take n)).length) 0).length = n := by
    have := length_cstr_take_le t n
    simp; omega
  rw [strncpy, if_pos h]
  generalize cstr (t.take n) ++ List.replicate (n - (cstr (t.take n)).length) 0 = r at hlen
  have hfill : fill (a ++ [x]) 0 r = some (r ++ [x]) := fill_append (a := []) rfl (by rw [hlen, hm])
  rw [hfill, Option.bind_some, ← hlen]
  exact store_mid

end

end Block
