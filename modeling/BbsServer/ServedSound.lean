import BbsServer.ActiveSound
import BbsServer.Poll

/-!
# What is polled is served

The poll loop takes the file of every session that has one, except between two packages of a download; the
dispatch loop looks at it only in the two transfer states. A file is always ready, so the loops agree exactly
if no session in another state has one (`served_iff`).
-/

namespace BbsServer

open CStr Function Runs

def Service.Consumes (ls : Nat) (v : Server) (d : Nat) : Service → Prop
  | .accept => d = ls
  | .read i => d = i
  | .transfer i => ∃ s, v.connections i = some s ∧ (d = i ∨ s.fd = some d)

/-- What `pselect` can report: descriptors that are polled, and all those of files among them. -/
structure Reported (ls : Nat) (v : Server) (r : Nat → Bool) : Prop where
  polled : ∀ d, r d → d ∈ (pollLoop ls v).readfds
  files : ∀ d ∈ (pollLoop ls v).readfds, ∀ k, v.world.fds d = some k → k ≠ .socket → r d

/-- Whatever `pselect` reports, the dispatch loop takes it away. -/
def Serves (ls : Nat) (v : Server) : Prop :=
  ∀ r, Reported ls v r → ∀ d, r d → ∃ a ∈ dispatch ls r v, a.Consumes ls v d

/-- A session that has a file is in a transfer that looks at it, or waits for a confirmation. -/
def FilesServed (v : Server) : Prop := ∀ ⦃i s d⦄, v.connections i = some s → s.fd = some d →
  s.state = .opUpload ∨ s.state = .opDownload ∨ s.state = .opDownloadWaitConfirmPackage

section
variable {P : Platform} {v : Server} {ls i d : Nat} {s : Session}

theorem serves_of_filesServed (h : Wf v) (hf : Fits v) (ha : AllActive v) (hs : FilesServed v) : Serves ls v := by
  intro r hr d hd
  rcases mem_readfds.mp (hr.polled d hd) with rfl | ⟨j, t, -, ht, rfl | ⟨hx, hw⟩⟩
  · exact ⟨.accept, accept_mem.mpr hd, rfl⟩
  · by_cases hst : t.state = .opUpload ∨ t.state = .opDownload
    · -- the file of a transfer is ready as well
      have htr : t.transfers := by rcases hst with h | h <;> simp [Session.transfers, h]
      obtain ⟨x, hx⟩ := Option.isSome_iff_exists.mp ((ha ht).fd htr)
      obtain ⟨k, hk, hne⟩ := h.fd ht hx
      have hpolled : x ∈ (pollLoop ls v).readfds :=
        mem_readfds.mpr (.inr ⟨d, t, hf ht, ht, .inr ⟨hx, by rcases hst with h | h <;> simp [h]⟩⟩)
      exact ⟨.transfer d, transfer_mem.mpr ⟨hf ht, t, x, ht, hst, hx, hr.files x hpolled k hk hne⟩, t, ht, .inl rfl⟩
    · exact ⟨.read d, read_mem.mpr ⟨hf ht, t, ht, hst, hd⟩, rfl⟩
  · have hst : t.state = .opUpload ∨ t.state = .opDownload := by
      rcases hs ht hx with h | h | h
      · exact .inl h
      · exact .inr h
      · exact absurd h hw
    exact ⟨.transfer j, transfer_mem.mpr ⟨hf ht, t, d, ht, hst, hx, hd⟩, t, ht, .inr hx⟩

def filesReady (ls : Nat) (v : Server) (d : Nat) : Bool :=
  decide (d ∈ (pollLoop ls v).readfds) && (v.world.fds d).any (· != .socket)

theorem filesReady_reported : Reported ls v (filesReady ls v) where
  polled := by
    intro d hd
    simp only [filesReady, Bool.and_eq_true, decide_eq_true_eq] at hd
    exact hd.1
  files := by
    intro d hd k hk hne
    simp [filesReady, hd, hk, hne]

theorem filesServed_of_serves (h : Wf v) (hf : Fits v) (hls : v.world.fds ls = none) (hs : Serves ls v) :
    FilesServed v := by
  intro i s d hc hd
  by_contra hst
  simp only [not_or] at hst
  obtain ⟨h1, h2, h3⟩ := hst
  obtain ⟨k, hk, hne⟩ := h.fd hc hd
  have hpolled : d ∈ (pollLoop ls v).readfds := mem_readfds.mpr (.inr ⟨i, s, hf hc, hc, .inr ⟨hd, h3⟩⟩)
  obtain ⟨a, ha, hcons⟩ := hs _ filesReady_reported d (filesReady_reported.files d hpolled k hk hne)
  -- nobody else has the file
  cases a with
  | accept =>
    obtain rfl : d = ls := hcons
    rw [hls] at hk
    cases hk
  | read j =>
    obtain rfl : d = j := hcons
    obtain ⟨-, t, ht, -⟩ := read_mem.mp ha
    exact h.fd_ne_sd hc ht hd rfl
  | transfer j =>
    obtain ⟨t, ht, rfl | htd⟩ := hcons
    · exact h.fd_ne_sd hc ht hd rfl
    by_cases hij : i = j
    · subst hij
      obtain rfl := Option.some.inj (hc.symm.trans ht)
      obtain ⟨-, t, x, ht, htst, -⟩ := transfer_mem.mp ha
      obtain rfl := Option.some.inj (hc.symm.trans ht)
      exact htst.elim h1 h2
    · exact h.apart hij hc ht hd htd

end

/-- **Serving.** An iteration does what the table asks for when it begins. In a reachable state this takes
away whatever `pselect` can report exactly if every session that has a file is in a transfer step or waits
for a confirmation. -/
theorem served_iff {P : Platform} {v : Server} (h : Reachable P v) {ls : Nat} (hls : v.world.fds ls = none) :
    (∀ r, Reported ls v r → ∀ as v', Iterates P ls r v as v' → as = dispatch ls r v) ∧
    (Serves ls v ↔ FilesServed v) :=
  ⟨fun _ hr _ _ hi => iterates_dispatch h.wf hr.polled hi, filesServed_of_serves h.wf h.fits hls,
    serves_of_filesServed h.wf h.fits h.active⟩

/-! ### An upload before its description -/

def describedSoon : List Event :=
  [.accept 4 0 0, .ready 4 { read := some (ascii "anonymous") },
    .ready 4 { read := some (ascii "file upload \"a\" 1 0\n"), availableSpace := 1, probes := [{ opened := .fd 5 }] },
    .ready 4 { read := some (leBytes 8 0 ++ leBytes 8 1 ++ ascii "x") }]

theorem describedSoon_reached : ∃ v s, Reachable default v ∧ v.connections 4 = some s ∧ s.fd = some 5 ∧
    s.state = .opUploadDescription ∧ v.world.fds 3 = none := by
  have h : (Server.exec (fun _ _ => True) default .fresh describedSoon).any (fun v => v.world.fds 3 == none &&
      (v.connections 4).any fun s => s.fd == some 5 && s.state == .opUploadDescription) = true := by
    decide +kernel
  simp only [Option.any_eq_true, Bool.and_eq_true, beq_iff_eq] at h
  obtain ⟨v, hv, hfree, s, hc, hd, hst⟩ := h
  exact ⟨v, s, .exec hv, hc, hd, hst, hfree⟩

/-- The file of a complete upload is polled and ready, and nobody looks at it. -/
theorem description_spins : ∃ v, Reachable default v ∧ v.world.fds 3 = none ∧ ¬ Serves 3 v := by
  obtain ⟨v, s, h, hc, hd, hst, hfree⟩ := describedSoon_reached
  refine ⟨v, h, hfree, fun hs => ?_⟩
  rcases filesServed_of_serves h.wf h.fits hfree hs hc hd with he | he | he <;> rw [hst] at he <;> cases he

theorem served_iff_description : ∃ v, v.world.fds 3 = none ∧ (Serves 3 v ↔ FilesServed v) := by
  obtain ⟨v, s, h, -, -, -, hfree⟩ := describedSoon_reached
  exact ⟨v, hfree, (served_iff h hfree).2⟩

end BbsServer
