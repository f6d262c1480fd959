import Mathlib.Data.List.Nodup
import BbsServer.RetrieveSound

/-!
# Private files on the download path

`file_send_prepare` asks for no owner and no permission: in every reachable state a session that
waits for a command can download exactly the rows that can be sent at all (`downloads_iff`), private
or not.
-/

namespace BbsServer

open CStr Runs

/-- Some command of the session makes `file_send_prepare` return 0 for the row. -/
def Downloads (P : Platform) (w : World) (s : Session) (r : FileRow) : Prop :=
  ∃ ans l w' s' f, IsLine l ∧ performSessionAction P ans w s (some l) = .ok (w', s') ∧ s'.state = .opDownload ∧
    s'.file = some f ∧ f.id = r.id

/-- The row can be sent: its name can be written in a line and fits `args.name`, no later row has the
name, and the storage folder holds a file of its size. -/
structure Servable (w : World) (r : FileRow) : Prop where
  ne : r.name ≠ []
  clean : 0 ∉ r.name ∧ nl ∉ r.name
  fits : r.name.length < fileNameLen
  last : (((joined w).map (·.1)).filter (·.name == r.name)).getLast? = some r
  cwd : w.cwd = .work
  stored : ∃ c, w.disk (storagePath r.hash) = some c ∧ c.length = r.size

section
variable {P : Platform} {ans : Answers} {w w' : World} {s s' : Session} {l N : Bytes} {r : FileRow}

theorem Did.sends (h : Did P ans w s (some l) w' s') (hst : s.state = .opWait) (hst' : s'.state = .opDownload) :
    ∃ sf d, sendRow ans w l = some sf ∧ ans.opened = some d ∧ w.openRead s (storagePath sf.hash) d = .ok w' ∧
      s'.file = some { sf.stored with rest := sf.size, packageRest := packageSize } ∧ s'.fd = some d ∧
      sf.size = ((w.disk (storagePath sf.hash)).getD []).length := by
  cases h with
  | sending _ hl hr ho hop hsize => cases hl; exact ⟨_, _, hr, ho, hop, rfl, rfl, hsize⟩
  | dropped => rw [clearFileFromSess_state, hst] at hst'; cases hst'
  | talked | notFound | notOpened | damaged => rw [show s.state = _ from hst'] at hst; cases hst
  | moved hs => rcases hs with hs | hs <;> rw [hst] at hs <;> cases hs
  | released hs => rcases hs with hs | hs <;> rw [hst] at hs <;> cases hs
  | stored hs | described hs => rw [hst] at hs; cases hs
  | _ => cases hst'

theorem sendName_clean (hl : IsLine l) (hn : sendName l = some N) : 0 ∉ N ∧ nl ∉ N := by
  obtain ⟨t, ht, h0, hnl⟩ := hl.text
  unfold sendName at hn
  split at hn
  · rename_i b e hb he
    split at hn
    · cases hn
      obtain ⟨hsplit, -, hlt⟩ := strrchr_eq_some he
      have hmem : ∀ c ∈ (l.drop (b + 1)).take (e - (b + 1)), c ∈ t := by
        intro c hc
        rw [← List.drop_take] at hc
        have hc := List.mem_of_mem_drop hc
        rcases ht with rfl | rfl
        · exact List.mem_of_mem_take hc
        · -- the `]` is not the newline at the end
          have he' : e ≤ t.length := by simp only [List.length_append, List.length_singleton] at hlt; omega
          rw [List.take_append_of_le_length he'] at hc
          exact List.mem_of_mem_take hc
      exact ⟨fun h => h0 (hmem _ h), fun h => hnl (hmem _ h)⟩
    · cases hn
  · cases hn

theorem sendName_ne (hn : sendName l = some N) : N ≠ [] := by
  unfold sendName at hn
  split at hn
  · rename_i b e hb he
    have hlen := (strrchr_eq_some he).2.2
    split at hn
    · cases hn
      refine List.length_pos_iff.mp ?_
      rw [List.length_take, List.length_drop]
      omega
    · cases hn
  · cases hn

theorem dbGetFile_answered {arg : GetFile} {sf : SFile} (h : dbGetFile ans w arg = some sf) :
    ans.answered = true := by
  unfold dbGetFile at h
  by_contra ha
  rw [if_neg ha] at h
  cases h

theorem isLine_downloadLine (h : 0 ∉ N ∧ nl ∉ N) : IsLine (downloadLine N) := by
  refine ⟨0, _, _, queryExtractFromBuf2_bare (by simp [downloadLine]) ?_ ?_⟩
  · simpa [downloadLine] using ⟨by decide, by decide, h.1⟩
  · have h1 : nl ∉ ascii "file" ∧ nl ∉ ascii "download" ∧ nl ≠ 32 ∧ nl ≠ 91 ∧ nl ≠ 93 := by decide
    simpa [downloadLine] using ⟨h1.1, h1.2.2.1, h1.2.1, h1.2.2.1, h1.2.2.2.1, h.2, h1.2.2.2.2⟩

theorem file_unique (hr : r ∈ w.files.rows) {r' : FileRow} (hr' : r' ∈ w.files.rows) (hid : r'.id = r.id) : r' = r :=
  List.inj_on_of_nodup_map w.files.ids hr' hr hid

/-- **What a waiting session can download.** -/
theorem downloads_iff (hb : FdsBounded w) (hst : s.state = .opWait) (hr : r ∈ (joined w).map (·.1)) :
    Downloads P w s r ↔ Servable w r := by
  have hrow := (mem_joined.mp hr).1
  constructor
  · rintro ⟨ans, l, w', s', f, hl, h, hst', hf, hid⟩
    obtain ⟨sf, d, hsf, -, hop, hfile, -, hsize⟩ := (performSessionAction_did h).sends hst hst'
    obtain ⟨hcmd, N, hN, hget⟩ := sendRow_some hsf
    obtain ⟨r', hlast, rfl⟩ := (dbGetFile_by_name (dbGetFile_answered hget) (sendName_ne hN)).mp hget
    have hmem := List.mem_filter.mp (List.mem_of_getLast? hlast)
    -- the id that is sent belongs to one row
    obtain rfl : r' = r := by
      rw [hfile] at hf
      cases hf
      exact file_unique hrow (mem_joined.mp hmem.1).1 hid
    obtain rfl : r'.name = N := by simpa using hmem.2
    have hlen : r'.name.length < fileNameLen := by
      by_contra hlen
      rw [performSessionAction_send hst hcmd, fileSendPrepare_eq hN, if_pos (not_lt.mp hlen)] at h
      cases h
    obtain ⟨⟨hcwd, hstored, -⟩, -⟩ := World.openRead_ok hop
    obtain ⟨c, hc⟩ := Option.isSome_iff_exists.mp hstored
    exact ⟨sendName_ne hN, sendName_clean hl hN, hlen, hlast, hcwd, c, hc, by rw [hc] at hsize; exact hsize.symm⟩
  · intro hv
    obtain ⟨n, hn⟩ := hb
    obtain ⟨c, hc, hsize⟩ := hv.stored
    let ans : Answers := { opened := some n }
    have hname := sendName_downloadLine hv.ne
    let w₁ := w.log (.handled s.sd s.state (some (downloadLine r.name)))
    have hget : dbGetFile ans w₁ { id := 0, userId := 0, name := r.name } = some (dbGetFileDb r) :=
      (dbGetFile_by_name rfl hv.ne).mpr ⟨r, hv.last, rfl⟩
    obtain ⟨w', hop⟩ : ∃ w', w₁.openRead s (storagePath r.hash) n = .ok w' :=
      ⟨_, if_pos ⟨hv.cwd, by rw [World.log_disk, hc]; rfl, hn n (Nat.le_refl n)⟩⟩
    have hsize : (dbGetFileDb r).size = ((w₁.disk (storagePath (dbGetFileDb r).hash)).getD []).length := by
      rw [World.log_disk, show (dbGetFileDb r).hash = r.hash from rfl, hc]
      exact hsize.symm
    have hsend := (fileSendPrepare_zero hname).mpr ⟨hv.fits, _, hget, sendFound_zero.mpr ⟨n, rfl, hop, hsize, rfl⟩⟩
    let f : SFile := { (dbGetFileDb r).stored with rest := r.size, packageRest := packageSize }
    refine ⟨ans, _, w', { s with file := some f, fd := some n, state := .opDownload }, f,
      isLine_downloadLine hv.clean, ?_, rfl, rfl, rfl⟩
    rw [performSessionAction_send hst (fileCommand_downloadLine _), hsend]
    rfl

end

/-- **Privacy of downloads.** In a reachable state, a session that waits for a command can download no
private file of another user exactly if no such file can be sent to anybody. -/
theorem private_iff {P : Platform} {disk : Bytes → Option Bytes} {users : UserTable} {files : FileTable}
    {es : List Event} {v : Server} (r : Run (Steps P) (.start disk users files) es v) :
    ∀ i s, v.connections i = some s → s.state = .opWait →
      ((∀ p ∈ joined v.world, p.1.permissions = 0 → some p.2.username ≠ s.uname → ¬ Downloads P v.world s p.1) ↔
        ∀ p ∈ joined v.world, p.1.permissions = 0 → some p.2.username ≠ s.uname → ¬ Servable v.world p.1) := by
  intro i s _ hst
  have hb : FdsBounded v.world := r.inv (fun v => FdsBounded v.world) (fun _ _ _ h hs => h.step hs) ⟨0,
    fun _ _ => rfl⟩
  refine forall₂_congr fun p hp => forall₂_congr fun _ _ => not_congr ?_
  exact downloads_iff hb hst (List.mem_map_of_mem hp)

/-! ### A private file and another client -/

def aliceUploads : List Event :=
  [.accept 4 0 0, .ready 4 { read := some (ascii "register alice pw a@b\n"), insert := some 1 },
    .ready 4 { read := some (ascii "file upload \"a\" 1 0\n"), availableSpace := 1, probes := [{ opened := .fd 6 }] },
    .ready 4 { read := some (fpdHeader 1 ++ ascii "x") },
    .ready 4 { read := some (ascii "text:END:\n"), insert := some 1 },
    .accept 5 0 0, .ready 5 { read := some (ascii "anonymous") }]

def downloadA : Bytes := ascii "file download [a]"

theorem aliceUploads_run : ∃ v s p,
    Run (Steps default) .fresh aliceUploads v ∧ v.connections 5 = some s ∧ s.state = .opWait ∧
    p ∈ joined v.world ∧ p.1.permissions = 0 ∧ some p.2.username ≠ s.uname ∧ Downloads default v.world s p.1 := by
  have h : (Server.exec (fun _ _ => True) default .fresh aliceUploads).any (fun v => (v.connections 5).any (fun s =>
      s.state == .opWait && (joined v.world).any fun p => p.1.permissions == 0 && some p.2.username != s.uname &&
        (performSessionAction default { opened := some 7 } v.world s (some downloadA)).toOption.any fun r =>
          r.2.state == .opDownload && r.2.file.any (·.id == p.1.id))) = true := by
    decide +kernel
  simp only [Option.any_eq_true, List.any_eq_true, Bool.and_eq_true, beq_iff_eq, bne_iff_ne] at h
  obtain ⟨v, hv, s, hs, hst, p, hp, ⟨hperm, hne⟩, ⟨w', s'⟩, hact, hst', f, hf, hid⟩ := h
  refine ⟨v, s, p, (Server.exec_run hv).unguard, hs, hst, hp, hperm, hne, { opened := some 7 }, downloadA, w', s', f,
    ⟨0, _, _, queryExtractFromBuf2_bare (by decide) (by decide) (by decide)⟩, ?_, hst', hf, hid⟩
  cases hx : performSessionAction default { opened := some 7 } v.world s (some downloadA) with
  | error => rw [hx] at hact; cases hact
  | ok r => rw [hx] at hact; cases hact; rfl

/-- The anonymous client downloads the private file of alice. -/
theorem downloads_private : ∃ (v : Server) (s : Session) (p : FileRow × UserRow), Reachable default v ∧
    v.connections 5 = some s ∧ s.state = .opWait ∧
    p ∈ joined v.world ∧ p.1.permissions = 0 ∧ some p.2.username ≠ s.uname ∧ Downloads default v.world s p.1 := by
  obtain ⟨v, s, p, r, h⟩ := aliceUploads_run
  exact ⟨v, s, p, ⟨_, _, _, _, r⟩, h⟩

theorem private_iff_alice : ∃ (v : Server) (s : Session), v.connections 5 = some s ∧ s.state = .opWait ∧
    ((∀ p ∈ joined v.world, p.1.permissions = 0 → some p.2.username ≠ s.uname → ¬ Downloads default v.world s p.1) ↔
      ∀ p ∈ joined v.world, p.1.permissions = 0 → some p.2.username ≠ s.uname → ¬ Servable v.world p.1) := by
  obtain ⟨v, s, -, r, hs, hst, -⟩ := aliceUploads_run
  exact ⟨v, s, hs, hst, private_iff r 5 s hs hst⟩

end BbsServer
