import BbsServer.Lib.Packages

/-!
# Where a stream of packages may be cut

The reads of an encoded stream are all in step exactly as the lengths of the reads
and of the payloads say (`alignedCuts`). `At` is the place in the stream where a read
starts; each lemma about it is one way a read can go.
-/

namespace Packages

variable {α : Type}

/-- A read `a` with the rest `r` of the stream, against a first part `x` of it. -/
theorem cut_short {a r x y : List α} (h : a ++ r = x ++ y) (hl : a.length ≤ x.length) : r = x.drop a.length ++ y := by
  have := congrArg (List.drop a.length) h
  rwa [List.drop_left, List.drop_append_of_le_length hl] at this

theorem cut_long {a r x y : List α} (h : a ++ r = x ++ y) (hl : x.length ≤ a.length) :
    a.take x.length = x ∧ a.drop x.length ++ r = y := by
  have h1 := congrArg (List.take x.length) h
  have h2 := congrArg (List.drop x.length) h
  rw [List.take_left, List.take_append_of_le_length hl] at h1
  rw [List.drop_left, List.drop_append_of_le_length hl] at h2
  exact ⟨h1, h2⟩

abbrev sizesOf (ps : List (Package α)) : List Nat := ps.map (·.payload.length)

theorem sum_sizesOf_cons (p : Package α) (ps : List (Package α)) :
    (sizesOf (p :: ps)).sum = p.payload.length + (sizesOf ps).sum := rfl

theorem le_sum_of_mem {n : Nat} {l : List Nat} (h : n ∈ l) : n ≤ l.sum := by
  induction l with
  | nil => cases h
  | cons m l ih =>
    rw [List.sum_cons]
    rcases List.mem_cons.mp h with rfl | h
    · omega
    · have := ih h; omega

/-- Each read ends in the payload in which it starts, or reaches the end of the content
there, or has the whole next header and ends at most with that package's payload,
unless no content comes after it. `left` is the payload still to come of the package
in which the first read starts. -/
def alignedCuts (hdrLen : Nat) : Nat → List Nat → List Nat → Bool
  | _, _, [] => true
  | left, sizes, c :: cuts =>
    if c ≤ left then alignedCuts hdrLen (left - c) sizes cuts
    else if sizes.sum = 0 then true
    else
      match sizes with
      | [] => true
      | n :: sizes =>
        left + hdrLen ≤ c &&
          if c - (left + hdrLen) ≤ n then alignedCuts hdrLen (n - (c - (left + hdrLen))) sizes cuts else sizes.sum == 0

theorem alignedCuts_done (hdrLen : Nat) {sizes : List Nat} (h : sizes.sum = 0) : ∀ (cuts : List Nat),
    alignedCuts hdrLen 0 sizes cuts = true
  | [] => rfl
  | c :: cuts => by
    by_cases hc : c ≤ 0
    · simp [alignedCuts, hc, alignedCuts_done hdrLen h cuts]
    · simp [alignedCuts, hc, h]

structure At (F : Format α) (d : Dec α) (pay : List α) (ps : List (Package α)) (stream : List α) : Prop where
  ok : ∀ p ∈ ps, p.Ok F
  hdr : d.hdr = []
  left : d.left = pay.length
  rest : d.rest = pay.length + (sizesOf ps).sum
  stream_eq : stream = pay ++ encode ps

section
variable {F : Format α} {d : Dec α} {pay bs r : List α} {q : Package α} {ps : List (Package α)}

/-! ## One read -/

theorem At.within (h : At F d pay ps (bs ++ r)) (hc : bs.length ≤ pay.length) :
    InStep F d.rest d.left bs ∧ At F (feedAll F d bs) (pay.drop bs.length) ps r := by
  have h1 := h.left
  have h2 := h.rest
  refine ⟨.inl ⟨by omega, by omega⟩, ?_⟩
  rw [feedAll_payload F bs d (by omega) (by omega)]
  exact ⟨h.ok, h.hdr, by simp only [List.length_drop]; omega, by simp only [List.length_drop]; omega,
    cut_short h.stream_eq hc⟩

theorem At.last (h : At F d pay ps (bs ++ r)) (hc : pay.length < bs.length) (hz : (sizesOf ps).sum = 0) :
    InStep F d.rest d.left bs ∧ (feedAll F d bs).rest = 0 := by
  have h1 := h.left
  have h2 := h.rest
  refine ⟨.inr (.inl ⟨by omega, by omega⟩), ?_⟩
  rw [feedAll_end F (by omega) (by omega)]

theorem At.header (h : At F d pay (q :: ps) (bs ++ r)) (hc : pay.length + F.hdrLen ≤ bs.length) :
    F.size ((bs.drop d.left).take F.hdrLen) = some q.payload.length ∧
      bs.drop (d.left + F.hdrLen) ++ r = q.payload ++ encode ps := by
  obtain ⟨hq1, hq2⟩ := h.ok q (List.mem_cons_self ..)
  have hs := h.stream_eq
  rw [encode_cons] at hs
  obtain ⟨-, hs1⟩ := cut_long hs (by omega)
  obtain ⟨hhdr, hs2⟩ := cut_long hs1 (by rw [List.length_drop, hq1]; omega)
  rw [hq1] at hhdr
  rw [List.drop_drop, hq1] at hs2
  rw [h.left, hhdr]
  exact ⟨hq2, hs2⟩

theorem At.next (h : At F d pay (q :: ps) (bs ++ r)) (hz : (sizesOf (q :: ps)).sum ≠ 0)
    (hc : pay.length + F.hdrLen ≤ bs.length) (hn : bs.length - (pay.length + F.hdrLen) ≤ q.payload.length) :
    InStep F d.rest d.left bs ∧
      At F (feedAll F d bs) (q.payload.drop (bs.length - (pay.length + F.hdrLen))) ps r := by
  obtain ⟨hsize, hs⟩ := h.header hc
  have h1 := h.left
  have h2 := h.rest
  rw [sum_sizesOf_cons] at h2 hz
  rw [← h1] at hn h2 hc ⊢
  have hmin : min (bs.length - (d.left + F.hdrLen)) (d.rest - d.left) = bs.length - (d.left + F.hdrLen) := by omega
  have hin : min (bs.length - (d.left + F.hdrLen)) (d.rest - d.left) ≤ q.payload.length := by omega
  obtain ⟨e1, e2, e3, -⟩ := feedAll_next F h.hdr (by omega) hc hsize hin
  rw [hmin] at e1 e2
  refine ⟨.inr (.inr ⟨by omega, hc, _, hsize, hin⟩), fun x hx => h.ok x (List.mem_cons_of_mem _ hx), e3, ?_, ?_, ?_⟩
  · rw [e2, List.length_drop]
  · rw [e1, List.length_drop]; omega
  · have := cut_short hs (by rw [List.length_drop]; exact hn)
    rwa [List.length_drop] at this

theorem At.over (h : At F d pay (q :: ps) (bs ++ r)) (hz : (sizesOf (q :: ps)).sum ≠ 0)
    (hc : pay.length + F.hdrLen ≤ bs.length) (hn : q.payload.length < bs.length - (pay.length + F.hdrLen))
    (hz' : (sizesOf ps).sum = 0) : InStep F d.rest d.left bs ∧ (feedAll F d bs).rest = 0 := by
  obtain ⟨hsize, hs⟩ := h.header hc
  have h1 := h.left
  have h2 := h.rest
  rw [sum_sizesOf_cons] at h2 hz
  rw [← h1] at hn h2 hc
  have hin : min (bs.length - (d.left + F.hdrLen)) (d.rest - d.left) ≤ q.payload.length := by omega
  obtain ⟨e1, -⟩ := feedAll_next F h.hdr (by omega) hc hsize hin
  exact ⟨.inr (.inr ⟨by omega, hc, _, hsize, hin⟩), by rw [e1]; omega⟩

end

/-! ## All reads -/

theorem inStepAll_of_aligned {F : Format α} :
    ∀ {reads : List (List α)} {pay : List α} {ps : List (Package α)} {d : Dec α},
    At F d pay ps reads.flatten → alignedCuts F.hdrLen pay.length (sizesOf ps) (reads.map List.length) = true →
    InStepAll F d reads
  | [], _, _, _, _, _ => trivial
  | bs :: reads, pay, ps, d, h, ha => by
    rw [List.flatten_cons] at h
    simp only [List.map_cons, alignedCuts] at ha
    by_cases hc : bs.length ≤ pay.length
    · rw [if_pos hc] at ha
      obtain ⟨hin, hat⟩ := h.within hc
      exact .inr ⟨hin, inStepAll_of_aligned hat (by rwa [List.length_drop])⟩
    rw [if_neg hc] at ha
    by_cases hz : (sizesOf ps).sum = 0
    · obtain ⟨hin, hd⟩ := h.last (by omega) hz
      exact .inr ⟨hin, inStepAll_done F hd _⟩
    rw [if_neg hz] at ha
    cases ps with
    | nil => exact absurd rfl hz
    | cons q ps =>
    simp only [sizesOf, List.map_cons, Bool.and_eq_true, decide_eq_true_eq] at ha
    obtain ⟨hh, ha⟩ := ha
    by_cases hn : bs.length - (pay.length + F.hdrLen) ≤ q.payload.length
    · rw [if_pos hn] at ha
      obtain ⟨hin, hat⟩ := h.next hz hh hn
      exact .inr ⟨hin, inStepAll_of_aligned hat (by rwa [List.length_drop])⟩
    · rw [if_neg hn, beq_iff_eq] at ha
      obtain ⟨hin, hd⟩ := h.over hz hh (by omega) ha
      exact .inr ⟨hin, inStepAll_done F hd _⟩

end Packages
