import BbsServer.Lib.Probing
import BbsServer.PagingSound
import Mathlib.Data.Fintype.EquivFin

/-!
# The name loop

A name that is taken is hashed again with the next seed. As the hash is compiled here, on `int32_t`, no name has a
different path for each seed (`probing_never`): `fmix32` shifts the sign in, and `fmix32 0 = fmix32 (-1)`.
-/

namespace BbsServer

open CStr Function Probing

def seedAt (i : Nat) : Int := (fun seed => toInt (seed + 1))^[i] fileHashSeed

def hashAt (name : Bytes) (i : Nat) : BitVec 32 := murmurHash3X86_32 name (seedAt i)

def pathAt (name : Bytes) (i : Nat) : Bytes := storagePath (hashAt name i)

/-- The loop creates a file in one of its first `n` rounds, where `mkdir` succeeds and `open` fails with `EEXIST`
only. -/
def EndsWithin (n : Nat) (w : World) (s : Session) (name : Bytes) (size : Nat) : Prop :=
  ∃ probes : List Probe, probes.length ≤ n ∧ (∀ p ∈ probes, p.mkdir = true ∧ p.opened ≠ .failed) ∧
    ∃ hash path d w', probeNames w s name size fileHashSeed probes = .ok (.created hash path d, w')

/-- Whichever storage paths exist, fewer than `k`, the loop ends within one round more than there are. -/
def LoopProgress (k : Nat) (name : Bytes) : Prop :=
  ∀ (w : World) (s : Session) (size d : Nat) (S : Finset Bytes), w.fds d = none → (∀ p, (w.disk p).isSome ↔ p ∈ S) →
    S.card < k → EndsWithin (S.card + 1) w s name size

section
variable {w w' : World} {s : Session} {name : Bytes} {size : Nat}

theorem probeNames_free {hash : BitVec 32} {path : Bytes} {d : Nat} :
    ∀ {probes : List Probe} {seed : Int} {w : World},
    probeNames w s name size seed probes = .ok (.created hash path d, w') →
    ∃ i < probes.length, w.disk (storagePath (murmurHash3X86_32 name ((fun seed => toInt (seed + 1))^[i] seed))) = none
  | [], _, _, h => by cases h
  | p :: probes, seed, w, h => by
    unfold probeNames at h
    split at h
    · cases h
    cases ho : p.opened with
    | eexist =>
      simp only [ho] at h
      split at h
      · obtain ⟨i, hi, hfree⟩ := probeNames_free h
        exact ⟨i + 1, by simpa using hi, hfree⟩
      · cases h
    | failed => simp only [ho] at h; cases h
    | fd d =>
      simp only [ho] at h
      obtain ⟨w₁, hc, -⟩ := bind_ok.mp h
      exact ⟨0, by simp, (World.create_ok hc).1.2.1⟩

theorem probeNames_reaches {d : Nat} : ∀ (i : Nat) (seed : Int) {w : World}, w.fds d = none →
    w.disk (storagePath (murmurHash3X86_32 name ((fun seed => toInt (seed + 1))^[i] seed))) = none →
    ∃ probes : List Probe, probes.length ≤ i + 1 ∧ (∀ p ∈ probes, p.mkdir = true ∧ p.opened ≠ .failed) ∧
      ∃ hash path d w', probeNames w s name size seed probes = .ok (.created hash path d, w')
  | i, seed, w, hd, hfree => by
    by_cases h0 : w.disk (storagePath (murmurHash3X86_32 name seed)) = none
    · refine ⟨[{ opened := .fd d }], by simp, by simp, ?_⟩
      simp [probeNames, World.create, h0, hd]
    · cases i with
      | zero => exact absurd hfree h0
      | succ i =>
        obtain ⟨probes, hlen, hall, hash, path, d', w', hp⟩ :=
          probeNames_reaches (w := { w with cwd := .work }) i (toInt (seed + 1)) hd hfree
        refine ⟨{ opened := .eexist } :: probes, by simpa using hlen, by simpa using hall, hash, path, d', w', ?_⟩
        simp only [probeNames, Option.isSome_iff_ne_none.mpr h0, if_true]
        exact hp

theorem endsWithin_iff {n d : Nat} (hd : w.fds d = none) :
    EndsWithin n w s name size ↔ ∃ i < n, w.disk (pathAt name i) = none := by
  refine ⟨fun ⟨probes, hlen, _, hash, path, d, w', hp⟩ => ?_, fun ⟨i, hi, hfree⟩ => ?_⟩
  · obtain ⟨i, hi, hfree⟩ := probeNames_free hp
    exact ⟨i, by omega, hfree⟩
  · obtain ⟨probes, hlen, hrest⟩ := probeNames_reaches i fileHashSeed hd hfree
    exact ⟨probes, by omega, hrest⟩

end

/-- The loop makes progress as far as its paths differ. -/
theorem loopProgress_iff {k : Nat} {name : Bytes} : LoopProgress k name ↔ Progress (pathAt name) k := by
  constructor
  · intro h S hS
    obtain ⟨i, hi, hfree⟩ := (endsWithin_iff (d := 0) rfl).mp
      (h (.start (fun p => if p ∈ S then some [] else none) .empty .empty) (.waiting 0 [] 0) 0 0 S rfl
        (fun p => by simp [World.start]) hS)
    exact ⟨i, by omega, by simpa [World.start] using hfree⟩
  · intro h w s size d S hd hdisk hS
    obtain ⟨i, hi, hfree⟩ := h S hS
    refine (endsWithin_iff hd).mpr ⟨i, by omega, ?_⟩
    rw [← hdisk] at hfree
    simpa using hfree

/-! ## Paths and hashes -/

theorem extractNamesFromHash_inj {a b : BitVec 32} (h : extractNamesFromHash a = extractNamesFromHash b) : a = b := by
  obtain ⟨hdir, hname⟩ := Prod.mk.inj h
  have hlen : ∀ n, ((hexDigits 8 n).drop 2).take 6 = (hexDigits 8 n).drop 2 := fun n =>
    List.take_of_length_le (by simp)
  rw [hlen, hlen] at hname
  refine BitVec.eq_of_toNat_eq (hexDigits_inj (k := 8) a.isLt b.isLt ?_)
  rw [← List.take_append_drop 2 (hexDigits 8 a.toNat), hdir, hname, List.take_append_drop]

theorem storagePath_inj {a b : BitVec 32} (h : storagePath a = storagePath b) : a = b := by
  simp only [storagePath, extractNamesFromHash, List.append_assoc, List.append_cancel_left_eq] at h
  obtain ⟨hdir, hname⟩ := List.append_inj h (by simp)
  exact extractNamesFromHash_inj (Prod.ext hdir (List.append_cancel_left hname))

theorem ofInt_toInt (x : Int) : BitVec.ofInt 32 (toInt x) = BitVec.ofInt 32 x :=
  BitVec.eq_of_toInt_eq (by simp [toInt, wrap, BitVec.toInt_ofInt])

theorem fitsInt_seedAt (i : Nat) : fitsInt (seedAt i) := by
  cases i with
  | zero => exact ⟨by decide, by decide⟩
  | succ i => rw [seedAt, iterate_succ_apply', ← toInt_eq_iff, toInt_idem]

theorem ofInt_seedAt (i : Nat) : BitVec.ofInt 32 (seedAt i) = BitVec.ofNat 32 (898 + i) := by
  induction i with
  | zero => rfl
  | succ i ih =>
    rw [seedAt, iterate_succ_apply', ofInt_toInt, BitVec.ofInt_add, ← seedAt, ih, ← Nat.add_assoc,
      BitVec.ofNat_add (898 + i)]
    rfl

/-! ## No name has a hash for each seed -/

theorem fmix32_collision : fmix32 0#32 = fmix32 (-1#32) := by decide

theorem hashAt_not_distinct (name : Bytes) : ¬ Distinct (hashAt name) (2 ^ 32) := by
  intro h
  have hhash : ∀ x : BitVec 32,
      hashAt name (x - 898#32).toNat = fmix32 (murmurBody x name ^^^ BitVec.ofNat 32 name.length) := fun x => by
    rw [hashAt, murmurHash3X86_32, ofInt_seedAt, BitVec.ofNat_add]
    congr 3
    rw [BitVec.ofNat_toNat, BitVec.setWidth_eq, BitVec.add_comm, BitVec.sub_add_cancel]
  have hinj : Injective fun x : BitVec 32 => fmix32 (murmurBody x name ^^^ BitVec.ofNat 32 name.length) := by
    intro x y e
    by_contra hne
    have hidx : (x - 898#32).toNat ≠ (y - 898#32).toNat := fun e' =>
      hne (by simpa using congrArg (· + 898#32) (BitVec.eq_of_toNat_eq e'))
    simp only [← hhash] at e
    rcases Nat.lt_or_gt_of_ne hidx with hlt | hlt
    · exact h _ _ hlt (y - 898#32).isLt e
    · exact h _ _ hlt (x - 898#32).isLt e.symm
  have : Finite (BitVec 32) := .of_injective BitVec.toFin fun _ _ => BitVec.eq_of_toFin_eq
  -- an injective hash is onto, so its last step is onto, and injective as well
  have hsurj : Surjective fmix32 := Surjective.of_comp (Finite.injective_iff_surjective.mp hinj)
  exact absurd (Finite.injective_iff_surjective.mpr hsurj fmix32_collision) (by decide)

/-- **Probing.** For no name does the loop make progress past every set of fewer than `2 ^ 32` paths, and for none do
two seeds always give different names. It passes every set of fewer than `k` paths exactly if the first `k` seeds give
different names. -/
theorem probing_never (name : Bytes) : ¬ LoopProgress (2 ^ 32) name ∧
    (¬ ∀ a b : Int, fitsInt a → fitsInt b → a ≠ b →
      extractNamesFromHash (murmurHash3X86_32 name a) ≠ extractNamesFromHash (murmurHash3X86_32 name b)) ∧
    ∀ k, LoopProgress k name ↔ Distinct (fun i => extractNamesFromHash (hashAt name i)) k := by
  have hprogress : ∀ k, LoopProgress k name ↔ Distinct (hashAt name) k := fun k => by
    rw [loopProgress_iff, progress_iff]
    exact ⟨fun h i j hij hj e => h i j hij hj (congrArg storagePath e), fun h i j hij hj e =>
      h i j hij hj (storagePath_inj e)⟩
  refine ⟨fun h => hashAt_not_distinct name ((hprogress _).mp h), fun h => ?_, fun k => ?_⟩
  · refine hashAt_not_distinct name fun i j hij hj e => ?_
    refine h (seedAt i) (seedAt j) (fitsInt_seedAt i) (fitsInt_seedAt j) (fun e' => ?_)
      (congrArg extractNamesFromHash e)
    have := congrArg (fun x => (BitVec.ofInt 32 x).toNat) e'
    simp only [ofInt_seedAt, BitVec.toNat_ofNat] at this
    omega
  · rw [hprogress]
    exact ⟨fun h i j hij hj e => h i j hij hj (extractNamesFromHash_inj e), fun h i j hij hj e =>
      h i j hij hj (congrArg extractNamesFromHash e)⟩

def notesTaken : World := .start (fun p => if p = pathAt (ascii "notes") 0 then some [] else none) .empty .empty

/-- One path exists, and the first two seeds give it. -/
theorem notes_spins : ∃ S : Finset Bytes, S.card = 1 ∧ (∀ p, (notesTaken.disk p).isSome ↔ p ∈ S) ∧
    ¬ EndsWithin (S.card + 1) notesTaken (.waiting 4 (ascii "bob") 1) (ascii "notes") 1 := by
  refine ⟨{pathAt (ascii "notes") 0}, rfl, fun p => by simp [notesTaken, World.start], fun h => ?_⟩
  obtain ⟨i, hi, hfree⟩ := (endsWithin_iff (d := 7) rfl).mp h
  have hsame : pathAt (ascii "notes") 1 = pathAt (ascii "notes") 0 := by decide +kernel
  rw [Finset.card_singleton] at hi
  rcases (show i = 0 ∨ i = 1 by omega) with rfl | rfl
  · simp [notesTaken, World.start] at hfree
  · simp [notesTaken, World.start, hsame] at hfree

end BbsServer
