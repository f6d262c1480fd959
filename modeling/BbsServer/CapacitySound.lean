import BbsServer.BoardSound
import BbsServer.Lib.Hex
import BbsServer.ProbeSound
import BbsServer.TableSound

/-!
# How many files there can be

`fmix32` ends with `h ^= h >> 16` on an `int32_t`, which clears the sign bit: half of the names that
`extract_names_from_hash` can give are never used. So the server creates files in the directories `00` to `7f`
only, and stores at most `2 ^ 31` of them (`stored_in_half`).
-/

namespace BbsServer

open CStr Function Runs

def Tried (p : Bytes) : Prop := ∃ name seed, p = storagePath (murmurHash3X86_32 name seed)

def numberedPath (d n : Nat) : Bytes := storageFolder ++ ascii "/" ++ hexDigits 2 d ++ ascii "/" ++ hexDigits 6 n

/-! ## The sign of a hash -/

theorem fmix32_msb (h : BitVec 32) : (fmix32 h).msb = false := by
  unfold fmix32
  simp [BitVec.msb_sshiftRight]

theorem murmurHash_lt (name : Bytes) (seed : Int) : (murmurHash3X86_32 name seed).toNat < 2 ^ 31 := by
  have := BitVec.msb_eq_false_iff_two_mul_lt.mp
    (fmix32_msb (murmurBody (BitVec.ofInt 32 seed) name ^^^ BitVec.ofNat 32 name.length))
  unfold murmurHash3X86_32
  omega

theorem storagePath_numbered (hash : BitVec 32) :
    storagePath hash = numberedPath (hash.toNat / 16 ^ 6) (hash.toNat % 16 ^ 6) := by
  have hsplit := hexDigits_add 2 (hash.toNat / 16 ^ 6) (Nat.mod_lt hash.toNat (show 0 < 16 ^ 6 by decide))
  rw [Nat.div_add_mod'] at hsplit
  have h2 : (hexDigits 2 (hash.toNat / 16 ^ 6)).length = 2 := length_hexDigits ..
  have h6 : (hexDigits 6 (hash.toNat % 16 ^ 6)).length = 6 := length_hexDigits ..
  unfold storagePath extractNamesFromHash numberedPath
  dsimp only
  rw [hsplit]
  rw [List.take_left' h2, List.drop_left' h2, List.take_of_length_le h6.le]

theorem Tried.numbered {p : Bytes} (h : Tried p) : ∃ d < 128, ∃ n < 16 ^ 6, p = numberedPath d n := by
  obtain ⟨name, seed, rfl⟩ := h
  have hlt := murmurHash_lt name seed
  exact ⟨_, by omega, _, Nat.mod_lt _ (by decide), storagePath_numbered _⟩

/-! ## One action -/

section
variable {P : Platform} {ans : Answers} {w w' : World} {s s' : Session} {line : Option Bytes} {v v' : Server}
  {e : Event}

theorem probeNames_tried {name path : Bytes} {size d : Nat} {hash : BitVec 32} {probes : List Probe} {seed : Int}
    (h : probeNames w s name size seed probes = .ok (.created hash path d, w')) : Tried path := by
  induction probes generalizing w seed with
  | nil => cases h
  | cons p probes ih =>
    unfold probeNames at h
    split at h
    · cases h
    cases ho : p.opened with
    | eexist =>
      simp only [ho] at h
      split at h
      · exact ih h
      · cases h
    | failed =>
      simp only [ho] at h
      cases h
    | fd d =>
      simp only [ho] at h
      obtain ⟨w₁, -, h⟩ := bind_ok.mp h
      cases h
      exact ⟨name, seed, rfl⟩

theorem fileReceivePrepare_tried {l p : Bytes} (h : fileReceivePrepare ans w s l = .ok (0, w', s'))
    (hp : s'.path = some p) : Tried p := by
  generalize hret : (0 : Int) = ret at h
  cases fileReceivePrepare_prepared h with
  | unread hr => exact absurd hret.symm hr
  | tooLong | noSpace => cases hret
  | noFile _ _ _ _ _ hr => exact absurd hret.symm hr
  | created _ _ _ hc =>
    cases hp
    exact probeNames_tried hc

theorem performSessionAction_tried (h : performSessionAction P ans w s line = .ok (w', s')) (hup : s'.uploads)
    (hns : ¬ s.uploads) {p : Bytes} (hp : s'.path = some p) : Tried p := by
  have hd := performSessionAction_did h
  rcases hd.upload hup with ⟨f, d, hst, hst', -⟩ | ⟨hsu, -⟩
  case inr => exact absurd hsu hns
  cases line with
  | none =>
    unfold performSessionAction performSessionActionWith at h
    simp only [hst] at h
    cases h
  | some l =>
    obtain ⟨ret, hargs, hne⟩ := fileCommand_args ((hd.begins (by simp [hst])).mp hst').2.1
    rw [performSessionAction_command hst] at h
    unfold processClientCommand processClientCommandWith at h
    rw [hargs, ok_bind] at h
    dsimp only at h
    rw [if_pos rfl, if_neg hne, if_neg (by decide), if_pos rfl] at h
    obtain ⟨⟨res, w₁, s₁⟩, hr, h⟩ := bind_ok.mp h
    cases h
    rcases fileReceivePrepare_fd hr hst with ⟨rfl, -⟩ | ⟨hne, hwait⟩
    · exact fileReceivePrepare_tried hr hp
    · dsimp only at hst'
      rw [if_neg hne, hwait] at hst'
      cases hst'

/-! ## Whole runs -/

/-- What has been added to the storage folder and to the table `files` since the start has paths of the name loop. -/
structure Added (disk : Bytes → Option Bytes) (files : FileTable) (v : Server) : Prop where
  disk : ∀ ⦃p⦄, (v.world.disk p).isSome → (disk p).isSome ∨ Tried p
  upload : ∀ ⦃i s p⦄, v.connections i = some s → s.uploads → s.path = some p → Tried p
  rows : ∃ new, v.world.files.rows = files.rows ++ new ∧ ∀ r ∈ new, Tried r.path

variable {disk : Bytes → Option Bytes} {users : UserTable} {files : FileTable} {i : Nat}

theorem Added.act (h : Added disk files v) (hc : v.connections i = some s) {b : Bytes}
    (hx : performSessionAction P ans v.world { s with buf := b } line = .ok (w', s')) :
    (∀ p, s'.uploads → s'.path = some p → Tried p) ∧ ∀ p, (w'.disk p).isSome → (disk p).isSome ∨ Tried p := by
  have hd := performSessionAction_did hx
  have hpath : ∀ p, s'.uploads → s'.path = some p → Tried p := by
    intro p hup hp
    rcases hd.upload hup with ⟨f, d, hst, -⟩ | ⟨hsu, f, f', hf, hf', -, hpf, -⟩
    · exact performSessionAction_tried hx hup (by simp_all [Session.uploads]) hp
    · refine h.upload hc hsu ?_
      rw [← hp, Session.path, Session.path, hf', show s.file = some f from hf, Option.bind_some,
        Option.bind_some, hpf]
  refine ⟨hpath, fun p hp => ?_⟩
  rcases hd.disk_old hp with hold | ⟨hup, hq⟩
  · exact h.disk hold
  · exact .inr (hpath p hup hq)

theorem Added.step (h : Added disk files v) (hw : Wf v) (hs : Steps P v e v') : Added disk files v' where
  disk := by
    intro p hp
    cases step_stepped hs with
    | accepted _ _ ht =>
      rw [Server.set_world, ht.disk] at hp
      exact h.disk hp
    | idle => exact h.disk hp
    | transfer hc _ _ hx => exact (h.act hc hx).2 p hp
    | line hc _ _ _ _ _ _ hx =>
      refine (h.act hc hx).2 p ?_
      split at hp
      · rwa [Server.set_world, closeSession_disk] at hp
      · exact hp
    | closed =>
      rw [Server.set_world, closeSession_disk] at hp
      exact h.disk hp
  upload := by
    intro j t p ht hup hp
    cases step_stepped hs with
    | accepted =>
      rcases Server.set_connections.mp ht with ⟨-, he⟩ | ⟨-, ht⟩
      · cases he
        simp [Session.uploads] at hup
      · exact h.upload ht hup hp
    | idle => exact h.upload ht hup hp
    | transfer hc _ _ hx =>
      rcases Server.set_connections.mp ht with ⟨-, he⟩ | ⟨-, ht⟩
      · cases he
        exact (h.act hc hx).1 p hup hp
      · exact h.upload ht hup hp
    | line hc _ _ _ _ _ _ hx =>
      split at ht
      · rcases Server.set_connections.mp ht with ⟨-, he⟩ | ⟨-, ht⟩
        · cases he
        · exact h.upload ht hup hp
      · rcases Server.set_connections.mp ht with ⟨-, he⟩ | ⟨-, ht⟩
        · cases he
          exact (h.act hc hx).1 p hup hp
        · exact h.upload ht hup hp
    | closed =>
      rcases Server.set_connections.mp ht with ⟨-, he⟩ | ⟨-, ht⟩
      · cases he
      · exact h.upload ht hup hp
  rows := by
    obtain ⟨new, hnew, hall⟩ := h.rows
    rcases hs.row hw with hf | ⟨i, s, row, c, -, hc, hst, hp, hins, -⟩
    · exact ⟨new, hf ▸ hnew, hall⟩
    · refine ⟨new ++ [row], by rw [(FileTable.insert_rows hins).1, hnew, List.append_assoc], fun r hr => ?_⟩
      rcases List.mem_append.mp hr with hr | hr
      · exact hall r hr
      · rw [List.mem_singleton.mp hr]
        exact h.upload hc (.inr hst) hp

theorem start_added : Added disk files (.start disk users files) where
  disk := fun _ hp => .inl hp
  upload := by
    intro i s p hs
    cases hs
  rows := ⟨[], by simp [Server.start, World.start], by simp⟩

theorem tried_length {ps : List Bytes} (hn : ps.Nodup) (hall : ∀ p ∈ ps, Tried p) : ps.length ≤ 2 ^ 31 := by
  have hsub : ps.toFinset ⊆ (Finset.range (2 ^ 31)).image fun n => storagePath (BitVec.ofNat 32 n) := by
    intro p hp
    obtain ⟨name, seed, rfl⟩ := hall p (List.mem_toFinset.mp hp)
    exact Finset.mem_image.mpr ⟨_, Finset.mem_range.mpr (murmurHash_lt name seed),
      by rw [BitVec.ofNat_toNat, BitVec.setWidth_eq]⟩
  calc ps.length = ps.toFinset.card := (List.toFinset_card_of_nodup hn).symm
    _ ≤ ((Finset.range (2 ^ 31)).image fun n => storagePath (BitVec.ofNat 32 n)).card := Finset.card_le_card hsub
    _ ≤ (Finset.range (2 ^ 31)).card := Finset.card_image_le
    _ = 2 ^ 31 := Finset.card_range _

/-- **Half of the names**: in every reachable state, each file of the storage folder that was not there at the
start is in one of the directories `00` to `7f`, and the table has at most `2 ^ 31` more rows than at the start. -/
theorem stored_in_half (hcons : Consistent disk files) {es : List Event}
    (r : Run (Steps P) (.start disk users files) es v) :
    (∀ p, (v.world.disk p).isSome → (disk p).isSome ∨ ∃ d < 128, ∃ n < 16 ^ 6, p = numberedPath d n) ∧
      v.world.files.rows.length ≤ files.rows.length + 2 ^ 31 := by
  have h : Added disk files v := r.inv_under Wf (Added disk files) (fun _ _ _ h hs => h.step hs)
    (fun _ _ _ hw h hs => h.step hw hs) (start_wf disk users files)
    start_added
  refine ⟨fun p hp => (h.disk hp).imp_right Tried.numbered, ?_⟩
  obtain ⟨new, hnew, hall⟩ := h.rows
  have hn := ((start_sound hcons).run r).exclusive.rows
  rw [hnew, List.map_append] at hn
  have hlen := tried_length (List.nodup_append.mp hn).2.1 fun p hp => by
    obtain ⟨r, hr, rfl⟩ := List.mem_map.mp hp
    exact hall r hr
  rw [hnew, List.length_append]
  rw [List.length_map] at hlen
  omega

end

theorem stored_in_half_guest : ∃ v p, Run (Steps default) .fresh guestPublishes v ∧ (v.world.disk p).isSome ∧
    (∃ d < 128, ∃ n < 16 ^ 6, p = numberedPath d n) ∧ v.world.files.rows.length ≤ 0 + 2 ^ 31 := by
  have h : (Server.exec (fun _ _ => True) default .fresh guestPublishes).map
      (fun v => (v.world.disk (pathAt (ascii "a") 0)).isSome) = some true := by decide +kernel
  obtain ⟨v, hv, hsome⟩ := Option.map_eq_some_iff.mp h
  have hrun := (Server.exec_run hv).unguard
  obtain ⟨hdisk, hlen⟩ := stored_in_half fresh_consistent hrun
  exact ⟨v, _, hrun, hsome, (hdisk _ hsome).resolve_left (by simp), hlen⟩

end BbsServer
