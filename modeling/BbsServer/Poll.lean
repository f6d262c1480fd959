import BbsServer.WellFormed

/-!
# The two loops over the table

`server_main_loop` goes twice over `connections`: to build `readfds` for `pselect`, and to serve what
`pselect` has left in it. `ls` is the listening socket.
-/

namespace BbsServer

open Function Runs

def fdSetSize : Nat := 1024

structure Polled where
  readfds : List Nat
  maxfd : Nat

def Polled.set (p : Polled) (d : Nat) : Polled :=
  { readfds := p.readfds ++ [d], maxfd := if p.maxfd < d then d else p.maxfd }

def pollSlot (p : Polled) (i : Nat) : Option Session → Polled
  | none => p
  | some s =>
    let p := p.set i
    match s.fd with
    | none => p
    | some d => if s.state = .opDownloadWaitConfirmPackage then p else p.set d

def pollLoop (ls : Nat) (v : Server) : Polled :=
  (List.range maxConnections).foldl (fun p i => pollSlot p i (v.connections i)) { readfds := [ls], maxfd := ls }

inductive Service
  | accept
  | read (i : Nat)
  | transfer (i : Nat)
  deriving DecidableEq, Repr

def dispatchSlot (r : Nat → Bool) (i : Nat) : Option Session → Option Service
  | none => none
  | some s =>
    if s.state = .opUpload ∨ s.state = .opDownload then
      match s.fd with
      | none => none
      | some d => if r d then some (.transfer i) else none
    else if r i then some (.read i) else none

def dispatch (ls : Nat) (r : Nat → Bool) (v : Server) : List Service :=
  (if r ls then [.accept] else []) ++ (List.range maxConnections).filterMap fun i =>
    dispatchSlot r i (v.connections i)

/-! ## One iteration

The loop looks at a slot when it comes to it, and serves it by an event for that slot. -/

/-- The dispatch loop over the slots `is`, and what it did. -/
inductive Passes (P : Platform) (r : Nat → Bool) : List Nat → Server → List Service → Server → Prop
  | nil {v} : Passes P r [] v [] v
  | skip {i is v as v'} : dispatchSlot r i (v.connections i) = none → Passes P r is v as v' →
    Passes P r (i :: is) v as v'
  | serve {i is v ans v₁ a as v'} : dispatchSlot r i (v.connections i) = some a → Steps P v (.ready i ans) v₁ →
    Passes P r is v₁ as v' → Passes P r (i :: is) v (a :: as) v'

/-- One iteration after `pselect`. What `accept` returns is not the listening socket. -/
inductive Iterates (P : Platform) (ls : Nat) (r : Nat → Bool) (v : Server) : List Service → Server → Prop
  | quiet {as v'} : r ls = false → Passes P r (List.range maxConnections) v as v' → Iterates P ls r v as v'
  | failed {as v'} : r ls = true → Passes P r (List.range maxConnections) v as v' →
    Iterates P ls r v (.accept :: as) v'
  | accepts {sd uid privileges v₁ as v'} : r ls = true → sd ≠ ls → Steps P v (.accept sd uid privileges) v₁ →
    Passes P r (List.range maxConnections) v₁ as v' → Iterates P ls r v (.accept :: as) v'

/-- An iteration has come to the slot `n`. -/
inductive Begins (P : Platform) (ls : Nat) (r : Nat → Bool) (v : Server) (n : Nat) : Server → Prop
  | passes {as v'} : n ≤ maxConnections → Passes P r (List.range n) v as v' → Begins P ls r v n v'
  | accepts {sd uid privileges v₁ as v'} : n ≤ maxConnections → r ls = true → sd ≠ ls →
    Steps P v (.accept sd uid privileges) v₁ → Passes P r (List.range n) v₁ as v' → Begins P ls r v n v'

/-! ## What is polled -/

section
variable {P : Platform} {v v' : Server} {ls d : Nat} {r : Nat → Bool}

@[simp] theorem mem_set {p : Polled} {x : Nat} : d ∈ (p.set x).readfds ↔ d ∈ p.readfds ∨ d = x := by
  simp [Polled.set]

/-- A session has its socket polled, and its file unless it waits for a confirmation. -/
theorem mem_pollSlot {p : Polled} {i : Nat} {c : Option Session} : d ∈ (pollSlot p i c).readfds ↔ d ∈ p.readfds ∨
    ∃ s, c = some s ∧ (d = i ∨ (s.fd = some d ∧ s.state ≠ .opDownloadWaitConfirmPackage)) := by
  unfold pollSlot
  cases c with
  | none => simp
  | some s =>
    dsimp only
    split
    · rename_i hfd
      simp [hfd]
    · rename_i x hfd
      split
      · rename_i hst
        simp [hst]
      · rename_i hst
        simp [hfd, hst, or_assoc, @eq_comm _ x d]

theorem mem_readfds : d ∈ (pollLoop ls v).readfds ↔ d = ls ∨ ∃ i s, i < maxConnections ∧ v.connections i = some s ∧
    (d = i ∨ (s.fd = some d ∧ s.state ≠ .opDownloadWaitConfirmPackage)) := by
  unfold pollLoop
  generalize maxConnections = n
  induction n with
  | zero => simp
  | succ n ih =>
    rw [List.range_succ, List.foldl_append, List.foldl_cons, List.foldl_nil, mem_pollSlot, ih, or_assoc]
    apply or_congr_right
    constructor
    · rintro (⟨i, s, hi, h⟩ | ⟨s, h⟩)
      · exact ⟨i, s, by omega, h⟩
      · exact ⟨n, s, by omega, h⟩
    · rintro ⟨i, s, hi, h⟩
      by_cases hn : i = n
      · subst hn
        exact .inr ⟨s, h⟩
      · exact .inl ⟨i, s, by omega, h⟩

/-! ## What is served -/

theorem mem_dispatch {a : Service} : a ∈ dispatch ls r v ↔ (a = .accept ∧ r ls) ∨
    ∃ i, i < maxConnections ∧ dispatchSlot r i (v.connections i) = some a := by
  unfold dispatch
  rw [List.mem_append, List.mem_filterMap]
  apply or_congr
  · split <;> simp [*]
  · simp only [List.mem_range]

theorem accept_mem : .accept ∈ dispatch ls r v ↔ r ls := by
  rw [mem_dispatch]
  refine ⟨fun h => ?_, fun h => .inl ⟨rfl, h⟩⟩
  rcases h with ⟨-, h⟩ | ⟨i, -, h⟩
  · exact h
  · unfold dispatchSlot at h
    split at h
    · cases h
    split at h
    · split at h
      · cases h
      · split at h <;> cases h
    · split at h <;> cases h

/-- A line is read from a socket that is ready, unless its session is in a transfer. -/
theorem read_mem {i : Nat} : .read i ∈ dispatch ls r v ↔ i < maxConnections ∧ ∃ s, v.connections i = some s ∧
    ¬ (s.state = .opUpload ∨ s.state = .opDownload) ∧ r i := by
  rw [mem_dispatch]
  constructor
  · rintro (⟨h, -⟩ | ⟨j, hj, h⟩)
    · cases h
    unfold dispatchSlot at h
    split at h
    · cases h
    rename_i s hc
    split at h
    · split at h
      · cases h
      · split at h <;> cases h
    · rename_i hst
      split at h
      · cases h
        exact ⟨hj, s, hc, hst, ‹_›⟩
      · cases h
  · rintro ⟨hi, s, hc, hst, hr⟩
    refine .inr ⟨i, hi, ?_⟩
    rw [hc]
    simp [dispatchSlot, hst, hr]

/-- A transfer makes a step when its file is ready. -/
theorem transfer_mem {i : Nat} : .transfer i ∈ dispatch ls r v ↔ i < maxConnections ∧
    ∃ s d, v.connections i = some s ∧ (s.state = .opUpload ∨ s.state = .opDownload) ∧ s.fd = some d ∧ r d := by
  rw [mem_dispatch]
  constructor
  · rintro (⟨h, -⟩ | ⟨j, hj, h⟩)
    · cases h
    unfold dispatchSlot at h
    split at h
    · cases h
    rename_i s hc
    split at h
    · rename_i hst
      split at h
      · cases h
      · rename_i d hd
        split at h
        · cases h
          exact ⟨hj, s, d, hc, hst, hd, ‹_›⟩
        · cases h
    · split at h <;> cases h
  · rintro ⟨hi, s, d, hc, hst, hd, hr⟩
    refine .inr ⟨i, hi, ?_⟩
    rw [hc]
    simp [dispatchSlot, hst, hd, hr]

/-! ## An iteration -/

theorem passes_dispatch {is : List Nat} {as : List Service} (hp : Passes P r is v as v') (hn : is.Nodup) :
    as = is.filterMap fun i => dispatchSlot r i (v.connections i) := by
  induction hp with
  | nil => rfl
  | skip hd _ ih =>
    rw [List.filterMap_cons, hd]
    exact ih hn.of_cons
  | @serve i is v ans v₁ a as v' hd hs _ ih =>
    rw [List.filterMap_cons, hd, ih hn.of_cons]
    congr 1
    apply List.filterMap_congr
    intro j hj
    have hij : i ≠ j := by
      rintro rfl
      exact (List.nodup_cons.mp hn).1 hj
    rw [hs.elsewhere hij]

/-- An iteration does what the table asked for when it began. -/
theorem iterates_dispatch {as : List Service} (h : Wf v) (hr : ∀ d, r d → d ∈ (pollLoop ls v).readfds)
    (hi : Iterates P ls r v as v') : as = dispatch ls r v := by
  have hall : (List.range maxConnections).Nodup := List.nodup_range
  cases hi with
  | quiet hl hp => rw [dispatch, if_neg (by simp [hl]), List.nil_append, passes_dispatch hp hall]
  | failed hl hp => rw [dispatch, if_pos hl, List.singleton_append, passes_dispatch hp hall]
  | @accepts sd uid privileges v₁ as v' hl hne hs hp =>
    have hsame : ∀ j, dispatchSlot r j (v₁.connections j) = dispatchSlot r j (v.connections j) := by
      intro j
      by_cases hj : sd = j
      case neg => rw [hs.elsewhere hj]
      subst hj
      cases step_stepped hs with
      | idle => rfl
      | accepted hfree =>
        -- the new socket was not polled
        have hnone : v.connections sd = none := by
          cases hc : v.connections sd with
          | none => rfl
          | some s =>
            have := h.socket hc
            rw [hfree] at this
            cases this
        have hnot : r sd = false := by
          rw [Bool.eq_false_iff]
          intro hsd
          rcases mem_readfds.mp (hr sd hsd) with he | ⟨i, s, -, hc, rfl | ⟨hfd, -⟩⟩
          · exact hne he
          · rw [hnone] at hc
            cases hc
          · obtain ⟨k, hk, -⟩ := h.fd hc hfd
            rw [hfree] at hk
            cases hk
        rw [hnone]
        simp [Server.set, dispatchSlot, hnot]
    rw [dispatch, if_pos hl, List.singleton_append, passes_dispatch hp hall]
    simp only [hsame]

end

end BbsServer
