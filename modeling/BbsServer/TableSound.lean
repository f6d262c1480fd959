import BbsServer.HandoverSound
import BbsServer.Poll

/-!
# The table and the set

`connections` is indexed by the descriptors of sockets, and `readfds` holds those of sockets and files.
Neither `accept_client` nor the transfers look at the number that the system returns, so the indices and the
members are in range exactly as long as the system returns small ones (`table_iff`).
-/

namespace BbsServer

open CStr Function Runs

/-- The slot that an event uses: `accept_client` stores into it, the loop serves it. -/
def Event.slot (v : Server) : Event → Option Nat
  | .accept sd _ _ => if v.world.fds sd = none then some sd else none
  | .acceptFailed => none
  | .ready i _ => (v.connections i).map fun _ => i

/-- Everything in `readfds` is below `FD_SETSIZE`. -/
def PolledBelow (ls : Nat) (v : Server) : Prop := ∀ d ∈ (pollLoop ls v).readfds, d < fdSetSize

def Opened (ans : Answers) (w : World) (line : Bytes) (d : Nat) : Prop :=
  (AcceptsUpload ans line ∧ probedFd ans.probes = some d) ∨
    ∃ sf ∈ sendRow ans w line, ans.opened = some d ∧ sf.size = ((w.disk (storagePath sf.hash)).getD []).length

def OpensBelow (v : Server) : Event → Prop
  | .ready i ans => ∀ s ∈ v.connections i, s.state = .opWait → ∀ r ∈ lineOf ans s, ∀ d,
      Opened ans v.world r.1 d → d < fdSetSize
  | _ => True

def AcceptsBelow (v : Server) : Event → Prop
  | .accept sd _ _ => v.world.fds sd = none → sd < maxConnections
  | _ => True

def FilesBelow (v : Server) : Prop := ∀ ⦃i s d⦄, v.connections i = some s → s.fd = some d → d < fdSetSize

section
variable {P : Platform} {ans : Answers} {w w' : World} {s s' : Session} {line : Option Bytes} {l : Bytes} {d : Nat}

/-! ## The descriptor of a transfer -/

theorem fileReceivePrepare_fd {ret : Int} (h : fileReceivePrepare ans w s l = .ok (ret, w', s'))
    (hst : s.state = .opWait) : (ret = 0 ∧ s'.fd = probedFd ans.probes) ∨ (ret ≠ 0 ∧ s'.state = .opWait) := by
  cases fileReceivePrepare_prepared h with
  | unread hr _ _ => exact .inr ⟨hr, (clearFileFromSess_state ..).trans hst⟩
  | tooLong _ _ _ => exact .inr ⟨by decide, rfl⟩
  | noSpace _ _ _ => exact .inr ⟨by decide, hst⟩
  | noFile _ _ _ _ _ hr _ => exact .inr ⟨hr, hst⟩
  | created _ _ _ hp =>
    rcases probeNames_cases hp with ⟨hr, -⟩ | ⟨hr, -⟩ | ⟨hash, d, hr, hd, -⟩
    · cases hr
    · cases hr
    · cases hr
      exact .inl ⟨rfl, hd.symm⟩

theorem upload_fd (h : performSessionAction P ans w s (some l) = .ok (w', s')) (hst : s.state = .opWait)
    (ha : AcceptsUpload ans l) : s'.fd = probedFd ans.probes ∧ s'.state = .opUpload := by
  have hup : s'.state = .opUpload := ((performSessionAction_did h).begins (by simp [hst])).mpr ⟨hst, ha⟩
  refine ⟨?_, hup⟩
  obtain ⟨ret, hargs, hne⟩ := fileCommand_args ha.1
  rw [performSessionAction_command hst] at h
  unfold processClientCommand processClientCommandWith at h
  rw [hargs, ok_bind] at h
  dsimp only at h
  rw [if_pos rfl, if_neg hne, if_neg (by decide), if_pos rfl] at h
  obtain ⟨⟨res, w₁, s₁⟩, hr, h⟩ := bind_ok.mp h
  cases h
  rcases fileReceivePrepare_fd hr hst with ⟨rfl, hfd⟩ | ⟨hne, hw⟩
  · exact hfd
  · dsimp only at hup
    rw [if_neg hne, hw] at hup
    cases hup

theorem Did.download_fd (h : Did P ans w s (some l) w' s') (hst : s.state = .opWait) {sf : SFile}
    (hr : sendRow ans w l = some sf) (ho : ans.opened = some d)
    (hs : sf.size = ((w.disk (storagePath sf.hash)).getD []).length) : s'.fd = some d ∧ s'.state = .opDownload := by
  have hquiet : ¬ Quiet ans w s (some l) := fun hq => by
    have := ((hq l rfl).2 hst).1
    rw [hr] at this
    cases this
  cases h with
  | sending _ _ _ ho' =>
    rw [ho] at ho'
    cases ho'
    exact ⟨rfl, rfl⟩
  | talked _ _ _ hq => exact absurd hq hquiet
  | dropped _ hq => exact absurd hq hquiet
  | refused _ hq => exact absurd hq hquiet
  | notFound _ hq => exact absurd hq hquiet
  | left _ hl hx =>
    cases hl
    rw [isExit_sendRow hx] at hr
    cases hr
  | accepted _ ha =>
    rw [(ha l rfl).1.sendRow] at hr
    cases hr
  | notOpened _ _ _ ho' =>
    rw [ho] at ho'
    cases ho'
  | damaged _ hl hr' _ _ hs' =>
    cases hl
    rw [hr] at hr'
    cases hr'
    exact absurd hs hs'
  | _ => simp_all

/-- A session gets a descriptor only for a transfer that it starts. -/
theorem Did.fd_new (h : Did P ans w s line w' s') (hd : s'.fd = some d) : s.fd = some d ∨ s.state = .opWait ∧
    ∀ l, line = some l → AcceptsUpload ans l ∨ Opened ans w l d := by
  cases h with
  | dropped =>
    unfold clearFileFromSess at hd
    split at hd
    · exact .inl hd
    · cases hd
  | accepted hst ha => exact .inr ⟨hst, fun l hl => .inl (ha l hl).1⟩
  | sending hst hl hr ho _ hs =>
    cases hd
    refine .inr ⟨hst, fun l' hl' => ?_⟩
    rw [hl] at hl'
    cases hl'
    exact .inr (.inr ⟨_, hr, ho, hs⟩)
  | refused | released | removed | writeFailed | saved | notSaved => cases hd
  | _ => exact .inl hd

theorem opened_fd (h : performSessionAction P ans w s (some l) = .ok (w', s')) (hst : s.state = .opWait)
    (ho : Opened ans w l d) : s'.fd = some d ∧ (s'.state = .opUpload ∨ s'.state = .opDownload) := by
  rcases ho with ⟨ha, hp⟩ | ⟨sf, hr, ho, hs⟩
  · obtain ⟨hfd, hup⟩ := upload_fd h hst ha
    exact ⟨hfd.trans hp, .inl hup⟩
  · obtain ⟨hfd, hdl⟩ := (performSessionAction_did h).download_fd hst hr ho hs
    exact ⟨hfd, .inr hdl⟩

theorem fd_opened (h : performSessionAction P ans w s (some l) = .ok (w', s')) (hd : s'.fd = some d) :
    s.fd = some d ∨ s.state = .opWait ∧ Opened ans w l d := by
  rcases (performSessionAction_did h).fd_new hd with hd | ⟨hst, hn⟩
  · exact .inl hd
  · rcases hn l rfl with ha | ho
    · exact .inr ⟨hst, .inl ⟨ha, (upload_fd h hst ha).1.symm.trans hd⟩⟩
    · exact .inr ⟨hst, ho⟩

/-! ## One event, and runs -/

variable {v v' : Server} {e : Event} {es : List Event} {ls : Nat}

theorem filesBelow_step (h : FilesBelow v) (hs : Steps P v e v') (ho : OpensBelow v e) : FilesBelow v' := by
  have hset : ∀ {i w x}, (∀ s d, x = some s → s.fd = some d → d < fdSetSize) → FilesBelow (v.set i w x) := by
    intro i w x hx j t d hj hd
    rcases Server.set_connections.mp hj with ⟨-, he⟩ | ⟨-, hj⟩
    · exact hx t d he hd
    · exact h hj hd
  cases step_stepped hs with
  | accepted => exact hset fun s d hs hd => by cases hs; cases hd
  | idle => exact h
  | transfer hc hst _ hx =>
    refine hset fun t d ht hd => ?_
    cases ht
    rcases (performSessionAction_did hx).fd_new hd with hd | ⟨hw, -⟩
    · exact h hc hd
    · simp [hw] at hst
  | line hc _ _ hread hne _ hq hx =>
    split
    · exact hset fun s d hs => by cases hs
    refine hset fun t d ht hd => ?_
    cases ht
    rcases fd_opened hx hd with hd | ⟨hw, hd⟩
    · exact h hc hd
    · exact ho _ hc hw _ ((lineOf_eq hread hne).trans hq) d hd
  | closed => exact hset fun s d hs => by cases hs

/-- The file of a transfer is polled as soon as it is open. -/
theorem opensBelow_of_polled (hf : Fits v) (hs : Steps P v e v') (hp : PolledBelow ls v') : OpensBelow v e := by
  cases e with
  | accept | acceptFailed => trivial
  | ready i ans =>
    intro s hc hst r hr d ho
    obtain ⟨w', s', hx, rfl⟩ := hs.line hc (by simp [hst]) (by simp [hst]) (by simp [hst]) hr
    obtain ⟨hfd, hs'⟩ := opened_fd hx hst ho
    rw [if_neg (by rcases hs' with h | h <;> simp [h])] at hp
    exact hp d (mem_readfds.mpr (.inr ⟨i, s', hf hc, Server.set_self .., .inr ⟨hfd, by rcases hs' with h | h <;> simp [h]⟩⟩))

theorem polledBelow_of_files (hf : Fits v) (h : FilesBelow v) (hls : ls < fdSetSize) : PolledBelow ls v := by
  intro d hd
  rcases mem_readfds.mp hd with rfl | ⟨i, s, hi, hc, rfl | ⟨hfd, -⟩⟩
  · exact hls
  · exact hf hc
  · exact h hc hfd

/-- The loop serves slots of the table only; `accept_client` stores where the system says. -/
theorem slot_lt_iff (hf : Fits v) : (∀ x ∈ e.slot v, x < maxConnections) ↔ AcceptsBelow v e := by
  cases e with
  | accept sd uid privileges => by_cases hfree : v.world.fds sd = none <;> simp [Event.slot, AcceptsBelow, hfree]
  | acceptFailed => simp [Event.slot, AcceptsBelow]
  | ready i ans =>
    refine iff_of_true (fun x hx => ?_) trivial
    obtain ⟨s, hc, rfl⟩ := Option.map_eq_some_iff.mp hx
    exact hf hc

theorem polledBelow_iff {disk : Bytes → Option Bytes} {users : UserTable} {files : FileTable}
    (r : Run (Steps P) (.start disk users files) es v) :
    Always (Steps P) (.start disk users files) es (PolledBelow ls) ↔
      ls < fdSetSize ∧ Run (Guarded OpensBelow (Steps P)) (.start disk users files) es v := by
  by_cases hls : ls < fdSetSize
  · rw [and_iff_right hls]
    exact always_iff_guarded_of Steps.det Fits FilesBelow (PolledBelow ls) (fun _ _ _ h hs => h.step hs)
      (fun _ hf h => polledBelow_of_files hf h hls) (fun _ _ _ _ h hs ho => filesBelow_step h hs ho)
      (fun _ _ _ hf _ hs hp => opensBelow_of_polled hf hs hp) r (fun _ _ h => by cases h) fun _ _ _ h => by cases h
  · refine iff_of_false (fun h => hls ?_) fun h => hls h.1
    exact h [] es _ rfl .nil ls (mem_readfds.mpr (.inl rfl))

/-- **The table.** After any run a session is in the slot of its socket, and a new client takes no session's
slot. The members of `readfds` in the run, and the slot that the next event uses, are in range exactly if the
system has returned small descriptors. -/
theorem table_iff {disk : Bytes → Option Bytes} {users : UserTable} {files : FileTable}
    (r : Run (Steps P) (.start disk users files) es v) (e : Event) (ls : Nat) :
    (∀ i s, v.connections i = some s → s.sd = i) ∧
    (∀ sd uid privileges, e = .accept sd uid privileges → v.world.fds sd = none → v.connections sd = none) ∧
    (Always (Steps P) (.start disk users files) es (PolledBelow ls) ∧ (∀ x ∈ e.slot v, x < maxConnections) ↔
      ls < fdSetSize ∧ Run (Guarded OpensBelow (Steps P)) (.start disk users files) es v ∧ AcceptsBelow v e) := by
  have hv : Reachable P v := ⟨disk, users, files, es, r⟩
  refine ⟨fun i s hc => hv.wf.sd hc, fun sd _ _ _ hfree => ?_, ?_⟩
  · by_contra hc
    obtain ⟨s, hc⟩ := Option.ne_none_iff_exists'.mp hc
    have := hv.wf.socket hc
    rw [hfree] at this
    cases this
  · rw [polledBelow_iff r, slot_lt_iff hv.fits, and_assoc]

end

/-! ### One client too many

Each client has the lowest descriptor that is free; 0 to 3 are the standard streams and the listening
socket. -/

def crowd (n : Nat) : List Event := (List.range n).map fun k => .accept (k + 4) 0 0

theorem crowd_run {n : Nat} (h : n ≤ 1020) : ∃ v, Run (Steps default) .fresh (crowd n) v ∧
    ∀ d, (v.world.fds d).isSome ↔ 4 ≤ d ∧ d < n + 4 := by
  induction n with
  | zero => exact ⟨.fresh, .nil, fun d => by simp [Server.fresh, Server.start, World.start]⟩
  | succ n ih =>
    obtain ⟨v, r, hv⟩ := ih (by omega)
    have hfree : v.world.fds (n + 4) = none := by
      rw [← Option.not_isSome_iff_eq_none, hv]
      omega
    have hstep : ∃ v', Steps default v (.accept (n + 4) 0 0) v' ∧
        v'.world.fds = update v.world.fds (n + 4) (some .socket) := by
      unfold Steps Server.step Server.stepWith acceptClientWith
      simp only [hfree, ne_eq, not_true_eq_false, if_false,
        show ¬ maxConnections ≤ n + 4 by unfold maxConnections; omega]
      exact ⟨_, rfl, rfl⟩
    obtain ⟨v', hs, hfds⟩ := hstep
    refine ⟨v', ?_, fun d => ?_⟩
    · rw [crowd, List.range_succ, List.map_append]
      exact .snoc r hs
    · rw [hfds]
      by_cases hd : d = n + 4
      · subst hd
        simp
      · rw [update_of_ne hd, hv]
        omega

/-- With 1020 clients `accept` returns 1024, and `accept_client` stores behind the table. -/
theorem crowd_overflows : ∃ v, Run (Steps default) .fresh (crowd 1020) v ∧
    (∀ d, v.world.fds d = none ↔ d < 4 ∨ 1024 ≤ d) ∧ v.step default (.accept 1024 0 0) = .error (.fault .overflow) ∧
    ¬ ∀ x ∈ (Event.accept 1024 0 0).slot v, x < maxConnections := by
  obtain ⟨v, r, hv⟩ := crowd_run (n := 1020) (by decide)
  have hnone : ∀ d, v.world.fds d = none ↔ d < 4 ∨ 1024 ≤ d := by
    intro d
    rw [← Option.not_isSome_iff_eq_none, hv]
    omega
  have hfree : v.world.fds 1024 = none := (hnone 1024).mpr (by decide)
  refine ⟨v, r, hnone, ?_, fun h => ?_⟩
  · simp [Server.step, Server.stepWith, acceptClientWith, hfree, maxConnections]
  · exact absurd (h 1024 (by simp [Event.slot, hfree])) (by decide)

theorem table_iff_crowd : ∃ v, (∀ i s, v.connections i = some s → s.sd = i) ∧
    (Always (Steps default) .fresh (crowd 1020) (PolledBelow 3) ∧
        (∀ x ∈ (Event.accept 1024 0 0).slot v, x < maxConnections) ↔
      3 < fdSetSize ∧ Run (Guarded OpensBelow (Steps default)) .fresh (crowd 1020) v ∧
        AcceptsBelow v (.accept 1024 0 0)) := by
  obtain ⟨v, r, -⟩ := crowd_run (n := 1020) (by decide)
  have h := table_iff r (.accept 1024 0 0) 3
  exact ⟨v, h.1, h.2.2⟩

end BbsServer
