import Mathlib.Algebra.GroupWithZero.Nat
import Mathlib.Data.List.Basic

/-!
# Streams of packages

A content of known length sent as packages, each a header of fixed length that
announces the length of its payload. The decoder reads one byte at a time, so its
result does not depend on how a stream is cut (`feedAll_append`); it gives back the
content of an encoded stream (`feedAll_encode`).
-/

namespace Packages

variable {α : Type}

/-- `size` reads the payload length from a complete header; a header that announces no
package ends the content. -/
structure Format (α : Type) where
  hdrLen : Nat
  size : List α → Option Nat
  hdrLen_pos : 0 < hdrLen

/-- Content bytes still to come, payload left of the current package, the bytes of an
unfinished header, the content so far, and what came after its end. -/
structure Dec (α : Type) where
  rest : Nat
  left : Nat
  hdr : List α
  out : List α
  extra : List α

def Dec.start (n : Nat) : Dec α := ⟨n, 0, [], [], []⟩

section
variable (F : Format α)

def feed (d : Dec α) (b : α) : Dec α :=
  if d.rest = 0 then { d with extra := d.extra ++ [b] }
  else if d.left ≠ 0 then { d with rest := d.rest - 1, left := d.left - 1, out := d.out ++ [b] }
  else if d.hdr.length + 1 < F.hdrLen then { d with hdr := d.hdr ++ [b] }
  else
    match F.size (d.hdr ++ [b]) with
    | some n => { d with hdr := [], left := n }
    | none => { d with hdr := [], rest := 0 }

def feedAll (d : Dec α) (bs : List α) : Dec α := bs.foldl (feed F) d

@[simp] theorem feedAll_nil (d : Dec α) : feedAll F d [] = d := rfl

@[simp] theorem feedAll_cons (d : Dec α) (b : α) (bs : List α) :
    feedAll F d (b :: bs) = feedAll F (feed F d b) bs := rfl

theorem feedAll_append (d : Dec α) (a b : List α) : feedAll F d (a ++ b) = feedAll F (feedAll F d a) b := by
  simp [feedAll, List.foldl_append]

theorem feed_rest_le (d : Dec α) (b : α) : (feed F d b).rest ≤ d.rest := by
  unfold feed
  split
  · exact Nat.le_refl _
  split
  · exact Nat.sub_le _ _
  split
  · exact Nat.le_refl _
  split
  · exact Nat.le_refl _
  · exact Nat.zero_le _

theorem feedAll_rest_le : ∀ (bs : List α) (d : Dec α), (feedAll F d bs).rest ≤ d.rest
  | [], _ => Nat.le_refl _
  | b :: bs, d => Nat.le_trans (feedAll_rest_le bs (feed F d b)) (feed_rest_le F d b)

/-! ## Payload, header, end -/

theorem feedAll_done : ∀ (bs : List α) (d : Dec α), d.rest = 0 → feedAll F d bs = { d with extra := d.extra ++ bs }
  | [], d, _ => by simp
  | b :: bs, d, h => by
    have hf : feed F d b = { d with extra := d.extra ++ [b] } := by simp [feed, h]
    rw [feedAll_cons, hf, feedAll_done bs { d with extra := d.extra ++ [b] } h]
    simp

theorem feedAll_payload : ∀ (bs : List α) (d : Dec α), bs.length ≤ d.left → bs.length ≤ d.rest →
    feedAll F d bs = { d with rest := d.rest - bs.length, left := d.left - bs.length, out := d.out ++ bs }
  | [], d, _, _ => by simp
  | b :: bs, d, hl, hr => by
    simp only [List.length_cons] at hl hr
    have hf : feed F d b = { d with rest := d.rest - 1, left := d.left - 1, out := d.out ++ [b] } := by
      simp [feed, show d.rest ≠ 0 by omega, show d.left ≠ 0 by omega]
    rw [feedAll_cons, hf, feedAll_payload bs _ (by simp only; omega) (by simp only; omega)]
    simp only [List.length_cons, List.append_assoc, List.singleton_append, Dec.mk.injEq, and_true]
    omega

theorem feedAll_header_part : ∀ (bs : List α) (d : Dec α), d.rest ≠ 0 → d.left = 0 →
    d.hdr.length + bs.length < F.hdrLen → feedAll F d bs = { d with hdr := d.hdr ++ bs }
  | [], d, _, _, _ => by simp
  | b :: bs, d, hr, hl, h => by
    simp only [List.length_cons] at h
    have hf : feed F d b = { d with hdr := d.hdr ++ [b] } := by
      simp [feed, hr, hl, show d.hdr.length + 1 < F.hdrLen by omega]
    have h' : (d.hdr ++ [b]).length + bs.length < F.hdrLen := by
      simp only [List.length_append, List.length_singleton]; omega
    rw [feedAll_cons, hf, feedAll_header_part bs { d with hdr := d.hdr ++ [b] } hr hl h']
    simp

theorem feedAll_header {h : List α} {d : Dec α} {n : Nat} (hr : d.rest ≠ 0) (hl : d.left = 0) (hd : d.hdr = [])
    (hh : h.length = F.hdrLen) (hn : F.size h = some n) : feedAll F d h = { d with left := n } := by
  have hpos := F.hdrLen_pos
  rcases List.eq_nil_or_concat h with rfl | ⟨u, x, rfl⟩
  · simp at hh; omega
  rw [List.concat_eq_append] at hh hn ⊢
  simp only [List.length_append, List.length_singleton] at hh
  rw [feedAll_append, feedAll_header_part F u d hr hl (by rw [hd]; simp; omega)]
  simp [feed, hr, hl, hd, hn, show ¬ u.length + 1 < F.hdrLen by omega]

/-! ## A read that is in step

A read is in step when a reader that knows one header at a time can take it: it stays
inside the current payload, or it reaches the end of the content there, or it has the
whole next header and ends at most where that header's payload or the content does. -/

def InStep (rest left : Nat) (bs : List α) : Prop :=
  (bs.length ≤ left ∧ bs.length ≤ rest) ∨ (left < bs.length ∧ rest = left) ∨
    (left < rest ∧ left + F.hdrLen ≤ bs.length ∧
      ∃ n, F.size ((bs.drop left).take F.hdrLen) = some n ∧ min (bs.length - (left + F.hdrLen)) (rest - left) ≤ n)

instance (rest left : Nat) (bs : List α) : Decidable (InStep F rest left bs) :=
  decidable_of_iff ((bs.length ≤ left ∧ bs.length ≤ rest) ∨ (left < bs.length ∧ rest = left) ∨
    (left < rest ∧ left + F.hdrLen ≤ bs.length ∧ ∃ n ∈ F.size ((bs.drop left).take F.hdrLen),
      min (bs.length - (left + F.hdrLen)) (rest - left) ≤ n)) Iff.rfl

theorem feedAll_end {bs : List α} {d : Dec α} (h : d.left ≤ bs.length) (hr : d.rest = d.left) : feedAll F d bs =
    { d with rest := 0, left := 0, out := d.out ++ bs.take d.left, extra := d.extra ++ bs.drop d.left } := by
  have ht : (bs.take d.left).length = d.left := by simp; omega
  conv_lhs => rw [← List.take_append_drop d.left bs]
  rw [feedAll_append, feedAll_payload F _ d (by omega) (by omega), feedAll_done F _ _ (by simp only; omega), ht, hr,
    Nat.sub_self]

/-- What a read of the third kind does to the decoder. -/
theorem feedAll_next {bs : List α} {d : Dec α} {n : Nat} (hd : d.hdr = []) (hlt : d.left < d.rest)
    (hlen : d.left + F.hdrLen ≤ bs.length) (hn : F.size ((bs.drop d.left).take F.hdrLen) = some n)
    (hmin : min (bs.length - (d.left + F.hdrLen)) (d.rest - d.left) ≤ n) :
    let m := min (bs.length - (d.left + F.hdrLen)) (d.rest - d.left)
    let d' := feedAll F d bs
    d'.rest = d.rest - d.left - m ∧ d'.left = n - m ∧ d'.hdr = [] ∧
      d'.out = d.out ++ bs.take d.left ++ (bs.drop (d.left + F.hdrLen)).take m := by
  intro m d'
  have hb : bs = bs.take d.left ++ ((bs.drop d.left).take F.hdrLen ++ bs.drop (d.left + F.hdrLen)) := by
    rw [← List.drop_drop, List.take_append_drop, List.take_append_drop]
  have hlen1 : (bs.take d.left).length = d.left := by simp; omega
  have e1 : feedAll F d (bs.take d.left) =
      { d with rest := d.rest - d.left, left := 0, out := d.out ++ bs.take d.left } := by
    rw [feedAll_payload F _ d (by omega) (by omega), hlen1, Nat.sub_self]
  have e2 : feedAll F d (bs.take d.left ++ (bs.drop d.left).take F.hdrLen) =
      { d with rest := d.rest - d.left, left := n, out := d.out ++ bs.take d.left } := by
    rw [feedAll_append, e1, feedAll_header F (by simp only; omega) rfl (by simpa using hd) (by simp; omega) hn]
  let t := bs.drop (d.left + F.hdrLen)
  have htl : t.length = bs.length - (d.left + F.hdrLen) := by simp [t]
  have hm : (t.take m).length = m := by rw [List.length_take, htl]; exact Nat.min_eq_left (Nat.min_le_left _ _)
  let e : Dec α := { d with rest := d.rest - d.left - m, left := n - m, out := d.out ++ bs.take d.left ++ t.take m }
  have e3 : feedAll F { d with rest := d.rest - d.left, left := n, out := d.out ++ bs.take d.left }
    (t.take m) = e := by
    rw [feedAll_payload F _ _ (by rw [hm]; exact hmin) (by rw [hm]; exact Nat.min_le_right _ _), hm]
  have hall : d' = feedAll F e (t.drop m) := by
    rw [← e3, ← feedAll_append, List.take_append_drop, ← e2, ← feedAll_append, List.append_assoc, ← hb]
  have hm' : m = min (bs.length - (d.left + F.hdrLen)) (d.rest - d.left) := rfl
  by_cases hend : bs.length - (d.left + F.hdrLen) ≤ d.rest - d.left
  · have : t.drop m = [] := List.drop_eq_nil_of_le (by omega)
    rw [hall, this]
    exact ⟨rfl, rfl, hd, rfl⟩
  · -- the content ends here and more was read
    have he : e.rest = 0 := by show d.rest - d.left - m = 0; omega
    rw [hall, feedAll_done F _ _ he]
    exact ⟨rfl, rfl, hd, rfl⟩

def InStepAll : Dec α → List (List α) → Prop
  | _, [] => True
  | d, bs :: reads => d.rest = 0 ∨ (InStep F d.rest d.left bs ∧ InStepAll (feedAll F d bs) reads)

theorem inStepAll_done {d : Dec α} (h : d.rest = 0) (reads : List (List α)) : InStepAll F d reads := by
  cases reads with
  | nil => trivial
  | cons bs reads => exact .inl h

/-! ## Encoding -/

structure Package (α : Type) where
  hdr : List α
  payload : List α

def Package.Ok (p : Package α) : Prop := p.hdr.length = F.hdrLen ∧ F.size p.hdr = some p.payload.length

end

def encode (ps : List (Package α)) : List α := ps.flatMap fun p => p.hdr ++ p.payload

def content (ps : List (Package α)) : List α := ps.flatMap Package.payload

@[simp] theorem encode_cons (p : Package α) (ps : List (Package α)) :
    encode (p :: ps) = p.hdr ++ (p.payload ++ encode ps) := by
  simp [encode]

@[simp] theorem content_cons (p : Package α) (ps : List (Package α)) :
    content (p :: ps) = p.payload ++ content ps := rfl

theorem length_content (ps : List (Package α)) : (content ps).length = (ps.map (·.payload.length)).sum := by
  induction ps with
  | nil => rfl
  | cons p ps ih => simp [ih]

theorem length_encode {F : Format α} {ps : List (Package α)} (h : ∀ p ∈ ps, p.Ok F) :
    (encode ps).length = (content ps).length + F.hdrLen * ps.length := by
  induction ps with
  | nil => rfl
  | cons p ps ih =>
    have h1 := (h p (List.mem_cons_self ..)).1
    have h2 := ih fun q hq => h q (List.mem_cons_of_mem _ hq)
    simp only [encode_cons, content_cons, List.length_append, List.length_cons, h1, h2, Nat.mul_add]
    omega

/-- **Round trip.** The decoder gives back the content of an encoded stream, in the
middle of a payload as well. -/
theorem feedAll_encode (F : Format α) : ∀ (ps : List (Package α)) (pay : List α) (d : Dec α), (∀ p ∈ ps, p.Ok F) →
    d.hdr = [] → d.left = pay.length → d.rest = pay.length + (content ps).length →
    (feedAll F d (pay ++ encode ps)).rest = 0 ∧ (feedAll F d (pay ++ encode ps)).out = d.out ++ pay ++ content ps
  | [], pay, d, _, _, hl, hr => by
    simp only [encode, content, List.flatMap_nil, List.append_nil, List.length_nil, Nat.add_zero] at hr ⊢
    rw [feedAll_payload F _ _ (by omega) (by omega)]
    exact ⟨by simp only; omega, rfl⟩
  | p :: ps, pay, d, hp, hd, hl, hr => by
    simp only [content_cons, List.length_append] at hr
    rw [feedAll_append, feedAll_payload F pay d (by omega) (by omega)]
    by_cases hz : p.payload.length + (content ps).length = 0
    · -- nothing but empty packages follows
      have h1 : p.payload = [] := List.eq_nil_of_length_eq_zero (by omega)
      have h2 : content ps = [] := List.eq_nil_of_length_eq_zero (by omega)
      rw [feedAll_done F _ _ (by simp only; omega)]
      exact ⟨by simp only; omega, by simp [h1, h2]⟩
    · obtain ⟨h1, h2⟩ := hp p (List.mem_cons_self ..)
      have hh := feedAll_header F (h := p.hdr)
        (d := { d with rest := d.rest - pay.length, left := d.left - pay.length, out := d.out ++ pay })
        (by simp only; omega) (by simp only; omega) hd h1 h2
      rw [encode_cons, feedAll_append, hh]
      have := feedAll_encode F ps p.payload
        { d with rest := d.rest - pay.length, left := p.payload.length, out := d.out ++ pay }
        (fun q hq => hp q (List.mem_cons_of_mem _ hq)) hd rfl (by simp only; omega)
      simpa [List.append_assoc] using this

end Packages
