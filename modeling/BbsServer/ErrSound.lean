import BbsServer.DescriptorSound
import BbsServer.DownloadSound

/-!
# The end of a session

A session in `ERR` does nothing any more: the events of others leave it as it is, and its own next event
closes it, once (`err_final`). Only a failed write of a download leaves such a session in the table; `exit`
and a failed read close it in the event that sets the state (`Freed`).
-/

namespace BbsServer

open CStr Function Runs

/-- The event has freed the session in slot `i`. Tables and storage are as they were, and the last entry
about the session, and no other one since, closes its socket. -/
structure Freed (i : Nat) (v v' : Server) : Prop where
  slot : v'.connections i = none
  users : v'.world.users = v.world.users
  files : v'.world.files = v.world.files
  disk : v'.world.disk = v.world.disk
  cwd : v'.world.cwd = v.world.cwd
  log : ∃ pre, logOf i v'.world.trace = .closed i i true true :: (pre ++ logOf i v.world.trace) ∧
    ∀ owned wasOpen, .closed i i owned wasOpen ∉ pre

/-- Nothing of the session is left to release but its socket. -/
def ErrBare (v : Server) : Prop := ∀ ⦃i s⦄, v.connections i = some s → s.state = .err → s.file = none ∧ s.fd = none

section
variable {P : Platform} {ans : Answers} {w w' : World} {s s' t : Session} {line : Option Bytes} {v v' u : Server}
  {e : Event} {i j : Nat}

/-! ## Where the state is set -/

/-- In the transfer arm only the write of a download sets `ERR`, and clears the transfer. -/
theorem Did.err_transfer (h : Did P ans w s line w' s') (hst : s.state = .opUpload ∨ s.state = .opDownload)
    (he : s'.state = .err) : s.state = .opDownload ∧ s'.file = none ∧ s'.fd = none := by
  by_cases hdl : s.state = .opDownload
  · refine ⟨hdl, ?_⟩
    cases h with
    | released => exact ⟨rfl, rfl⟩
    | moved _ _ hst' => rcases hst' with rfl | rfl <;> cases he
    | talked _ h => exact absurd hdl h
    | ended | removed | writeFailed => cases he
    | stored h => rw [hdl] at h; cases h
    | _ => simp_all
  · have hup := hst.resolve_right hdl
    cases h with
    | stored _ _ _ _ _ _ hst' => rcases hst' with rfl | ⟨rfl, -⟩ <;> cases he
    | ended | removed | writeFailed => cases he
    | talked h => exact absurd hup h
    | _ => simp_all

theorem Steps.err (hs : Steps P v e v') (hj : v'.connections j = some t) (he : t.state = .err) :
    v.connections j = some t ∨ ∃ s, v.connections j = some s ∧ s.state = .opDownload ∧ t.file = none ∧
    t.fd = none := by
  cases step_stepped hs with
  | accepted =>
    rcases Server.set_connections.mp hj with ⟨-, h⟩ | ⟨-, hj⟩
    · cases h
      cases he
    · exact .inl hj
  | idle => exact .inl hj
  | transfer hc hst _ hx =>
    rcases Server.set_connections.mp hj with ⟨rfl, h⟩ | ⟨-, hj⟩
    · cases h
      exact .inr ⟨_, hc, (performSessionAction_did hx).err_transfer hst he⟩
    · exact .inl hj
  | line =>
    split at hj
    · rcases Server.set_connections.mp hj with ⟨-, h⟩ | ⟨-, hj⟩
      · cases h
      · exact .inl hj
    · rename_i hne
      rcases Server.set_connections.mp hj with ⟨-, h⟩ | ⟨-, hj⟩
      · cases h
        exact absurd he hne
      · exact .inl hj
  | closed =>
    rcases Server.set_connections.mp hj with ⟨-, h⟩ | ⟨-, hj⟩
    · cases h
    · exact .inl hj

theorem ErrBare.step (hb : ErrBare v) (hs : Steps P v e v') : ErrBare v' := by
  intro j t hj he
  rcases hs.err hj he with hj | ⟨s, -, -, h⟩
  · exact hb hj he
  · exact h

theorem Reachable.errBare (h : Reachable P v) : ErrBare v := by
  obtain ⟨disk, users, files, es, r⟩ := h
  exact r.inv ErrBare (fun _ _ _ h hs => h.step hs) fun _ _ h => by cases h

/-! ## The close -/

theorem logOf_closeFd (hs : s.sd = i) (hfd : s.fd ≠ some i) :
    ∃ pre, logOf i (w.closeFd s).trace = pre ++ logOf i w.trace ∧
    ∀ owned wasOpen, .closed i i owned wasOpen ∉ pre := by
  unfold World.closeFd
  split
  · rename_i d hd
    refine ⟨[.closed s.sd d (s.sd == d || s.fd == some d) (w.fds d).isSome],
      List.filter_cons_of_pos (by simp [Act.owner, hs]), ?_⟩
    intro o b hmem
    cases List.mem_singleton.mp hmem
    exact hfd hd
  · exact ⟨[], rfl, by simp⟩

theorem logOf_closeSession (hs : s.sd = i) (hfd : s.fd ≠ some i) (hi : w.fds i = some .socket) :
    ∃ pre, logOf i (closeSession w s i).trace = .closed i i true true :: (pre ++ logOf i w.trace) ∧
      ∀ owned wasOpen, .closed i i owned wasOpen ∉ pre := by
  have hclear : ∃ pre, logOf i (clearFileFromSess w s).1.trace = pre ++ logOf i w.trace ∧
      ∀ owned wasOpen, .closed i i owned wasOpen ∉ pre := by
    unfold clearFileFromSess
    split
    · exact ⟨[], rfl, by simp⟩
    · exact logOf_closeFd hs hfd
  obtain ⟨pre, hpre, hno⟩ := hclear
  refine ⟨pre, ?_, hno⟩
  have hfds : (clearFileFromSess w s).1.fds i = some .socket := clear_fds hi hfd
  have hsd : (clearFileFromSess w s).2.sd = i := by rw [clearFileFromSess_sd, hs]
  rw [closeSession_eq, World.close]
  simp only [hfds, hsd, beq_self_eq_true, Bool.true_or, Option.isSome_some]
  rw [← hpre]
  exact List.filter_cons_of_pos (by simp [Act.owner])

/-- A line that ends its session, or meets one that has ended, is at most answered. -/
theorem Did.err_talks {l : Bytes} (h : Did P ans w s (some l) w' s') (hdl : s.state ≠ .opDownload)
    (he : s'.state = .err) : Talks w w' ∧ s'.fd = s.fd := by
  refine ⟨?_, (h.err_same hdl he).2⟩
  cases h with
  | talked _ _ _ _ ht => exact ht
  | left _ _ _ ht => exact ht
  | dropped hst => rw [clearFileFromSess_state, hst] at he; cases he
  | moved _ _ hst => rcases hst with rfl | rfl <;> cases he
  | released _ _ hst =>
    rcases hst with rfl | ⟨-, h⟩
    · cases he
    · exact absurd h hdl
  | stored _ _ _ _ _ _ hst => rcases hst with rfl | ⟨rfl, -⟩ <;> cases he
  | _ => simp_all [Session.cleared]

/-- **An event that empties a slot** closes the session there once. -/
theorem Steps.freed (h : Wf v) (hs : Steps P v e v') (hc : v.connections i = some s) (hn : v'.connections i = none) :
    Freed i v v' := by
  have hself : ∀ {w x}, (v.set i w x).connections i = x := update_self ..
  have hfd : s.fd ≠ some i := fun hd => h.fd_ne_sd hc hc hd rfl
  by_cases he : e.At i
  case neg =>
    rw [hs.elsewhere he, hc] at hn
    cases hn
  cases step_stepped hs with
  | accepted =>
    obtain rfl := he
    rw [hself] at hn
    cases hn
  | idle =>
    rw [hc] at hn
    cases hn
  | transfer =>
    obtain rfl := he
    rw [hself] at hn
    cases hn
  | @line k _ s₁ bs l b w' s' hc₁ _ hdl _ _ _ _ hx =>
    obtain rfl := he
    obtain rfl : s = s₁ := Option.some.inj (hc.symm.trans hc₁)
    by_cases herr : s'.state = .err
    case neg =>
      rw [if_neg herr, hself] at hn
      cases hn
    rw [if_pos herr]
    have hd := performSessionAction_did hx
    obtain ⟨ht, hfd'⟩ := hd.err_talks hdl herr
    have hsd : s'.sd = k := hd.sd_eq.trans (h.sd hc :)
    have hi : w'.fds k = some .socket := by
      rw [ht.fds]
      exact h.socket hc
    obtain ⟨pre, hpre, hno⟩ := logOf_closeSession hsd (by rw [hfd']; exact hfd) hi
    obtain ⟨acts, hacts, hw⟩ := ht
    refine ⟨hself, ?_, ?_, ?_, ?_, pre ++ logOf k (acts ++ [.handled s.sd s.state (some l)]), ?_, ?_⟩
    · rw [Server.set_world, closeSession_users, hw]
      rfl
    · rw [Server.set_world, closeSession_files, hw]
      rfl
    · rw [Server.set_world, closeSession_disk, hw]
      rfl
    · rw [Server.set_world, closeSession_cwd, hw]
      rfl
    · rw [Server.set_world, hpre, hw, List.append_assoc, ← logOf_append, List.append_assoc]
      rfl
    · intro o c hmem
      rcases List.mem_append.mp hmem with hmem | hmem
      · exact hno o c hmem
      · rcases List.mem_append.mp (List.mem_of_mem_filter hmem) with hmem | hmem
        · cases hacts _ hmem
        · cases List.mem_singleton.mp hmem
  | @closed _ _ s₁ st b hc₁ =>
    obtain rfl := he
    obtain rfl : s = s₁ := Option.some.inj (hc.symm.trans hc₁)
    rw [closeSession_congr]
    refine ⟨hself, ?_, ?_, ?_, ?_, logOf_closeSession (h.sd hc) hfd (h.socket hc)⟩
    · rw [Server.set_world, closeSession_users]
    · rw [Server.set_world, closeSession_files]
    · rw [Server.set_world, closeSession_disk]
    · rw [Server.set_world, closeSession_cwd]

theorem Steps.err_closed (h : Wf v) (hb : ErrBare v) (hs : Steps P v (.ready i ans) v')
    (hc : v.connections i = some s)
    (he : s.state = .err) : v'.connections i = none ∧ ∃ pre, (pre = [] ∨ ∃ l, pre = [.handled i .err (some l)]) ∧
      logOf i v'.world.trace = .closed i i true true :: (pre ++ logOf i v.world.trace) := by
  have hself : ∀ {w x}, (v.set i w x).connections i = x := update_self ..
  obtain ⟨hfile, hfd⟩ := hb hc he
  have hclose : ∀ {w b}, w.fds i = some .socket →
      (closeSession w { s with buf := b } i).trace = .closed i i true true :: w.trace := by
    intro w b hi
    have hclear : clearFileFromSess w { s with buf := b } = (w, { s with buf := b }) := by
      simp [clearFileFromSess, hfile]
    rw [closeSession_eq, hclear, World.close]
    simp [hi, h.sd hc]
  cases step_stepped hs with
  | idle hi => exact absurd (hi i ans s rfl hc).1 (by simp [he])
  | transfer hc₁ hst =>
    obtain rfl := Option.some.inj (hc.symm.trans hc₁)
    simp [he] at hst
  | @line _ _ s₁ bs l b w' s' hc₁ _ _ _ _ _ _ hx =>
    obtain rfl := Option.some.inj (hc.symm.trans hc₁)
    have hact : performSessionAction P ans v.world { s with buf := b } (some l) =
        .ok (v.world.log (.handled s.sd s.state (some l)), { s with buf := b }) := by
      unfold performSessionAction performSessionActionWith
      simp only [he]
    rw [hact] at hx
    cases hx
    rw [if_pos he]
    refine ⟨hself, [.handled i .err (some l)], .inr ⟨l, rfl⟩, ?_⟩
    rw [Server.set_world, hclose (w := v.world.log (.handled s.sd s.state (some l))) (b := b) (h.socket hc),
      World.log_trace, h.sd hc, he]
    simp [logOf, Act.owner]
  | @closed _ _ s₁ st b hc₁ =>
    obtain rfl := Option.some.inj (hc.symm.trans hc₁)
    refine ⟨hself, [], .inl rfl, ?_⟩
    rw [closeSession_congr, Server.set_world, hclose (b := s.buf) (h.socket hc)]
    simp [logOf, Act.owner]

/-! ## Runs -/

variable {es : List Event}

def NotAccepted (i : Nat) (es : List Event) : Prop := ∀ uid privileges, .accept i uid privileges ∉ es

theorem empty_run (r : Run (Steps P) v es u) (h : Wf v) (hn : v.connections i = none) (hno : NotAccepted i es) :
    u.connections i = none ∧ logOf i u.world.trace = logOf i v.world.trace := by
  induction r with
  | nil => exact ⟨hn, rfl⟩
  | @snoc b c es e r hs ih =>
    obtain ⟨hb, hlog⟩ := ih fun uid privileges hmem => hno uid privileges (List.mem_append_left _ hmem)
    have hwf : Wf b := r.inv Wf (fun _ _ _ h hs => h.step hs) h
    by_cases he : e.At i
    · cases e with
      | accept sd uid privileges =>
        obtain rfl := he
        exact absurd (List.mem_append_right _ (List.mem_singleton_self _)) (hno uid privileges)
      | acceptFailed => exact he.elim
      | ready j ans =>
        obtain rfl := he
        rw [hs.empty hb]
        exact ⟨hb, hlog⟩
    · rw [hs.elsewhere he, hs.logOf_eq hwf he]
      exact ⟨hb, hlog⟩

theorem elsewhere_run (r : Run (Steps P) v es u) (h : Wf v) (he : ∀ e ∈ es, ¬ e.At i) :
    u.connections i = v.connections i ∧ logOf i u.world.trace = logOf i v.world.trace := by
  induction r with
  | nil => exact ⟨rfl, rfl⟩
  | @snoc b c es e r hs ih =>
    obtain ⟨hb, hlog⟩ := ih fun e' hmem => he e' (List.mem_append_left _ hmem)
    have hwf : Wf b := r.inv Wf (fun _ _ _ h hs => h.step hs) h
    have he := he e (List.mem_append_right _ (List.mem_singleton_self _))
    rw [hs.elsewhere he, hs.logOf_eq hwf he]
    exact ⟨hb, hlog⟩

end

/-- **`ERR` is final.** In a reachable state, an event that empties a slot frees its session and closes it
once, and only a failed write of a download leaves a session in `ERR`. In every run from there such a session
stays as it is and nothing is logged for it until its own next event; this frees it, and afterwards its slot
is empty and not served until a new client takes it. -/
theorem err_final {P : Platform} {v : Server} (h : Reachable P v) {i : Nat} {s : Session}
    (hc : v.connections i = some s) : (∀ e v', Steps P v e v' → (v'.connections i = none → Freed i v v') ∧
      ∀ t, v'.connections i = some t → t.state = .err → t = s ∨
      (s.state = .opDownload ∧ t.file = none ∧ t.fd = none)) ∧
    (s.state = .err → ∀ es u, Run (Steps P) v es u → NotAccepted i es →
      ((∀ e ∈ es, ¬ e.At i) ∧ u.connections i = some s ∧ logOf i u.world.trace = logOf i v.world.trace) ∨
      ∃ es₁ ans es₂ v₁ v₂, es = es₁ ++ .ready i ans :: es₂ ∧ (∀ e ∈ es₁, ¬ e.At i) ∧ Run (Steps P) v es₁ v₁ ∧
        v₁.connections i = some s ∧ Steps P v₁ (.ready i ans) v₂ ∧ Freed i v₁ v₂ ∧ Run (Steps P) v₂ es₂ u ∧
        u.connections i = none ∧ (∀ ans' u', Steps P u (.ready i ans') u' → u' = u) ∧
        ∃ pre, (pre = [] ∨ ∃ l, pre = [.handled i .err (some l)]) ∧
          logOf i u.world.trace = .closed i i true true :: (pre ++ logOf i v.world.trace)) := by
  refine ⟨fun e v' hs => ⟨hs.freed h.wf hc, fun t ht he => ?_⟩, fun he es u r hno => ?_⟩
  · rcases hs.err ht he with ht | ⟨s₁, hs₁, hst, hbare⟩
    · exact .inl (Option.some.inj (ht.symm.trans hc))
    · obtain rfl := Option.some.inj (hc.symm.trans hs₁)
      exact .inr ⟨hst, hbare⟩
  by_cases hall : ∀ e ∈ es, ¬ e.At i
  · obtain ⟨hu, hlog⟩ := elsewhere_run r h.wf hall
    exact .inl ⟨hall, hu.trans hc, hlog⟩
  right
  -- the first event of the session
  obtain ⟨es₁, e, es₂, rfl, hat, hbefore⟩ : ∃ es₁ e es₂, es = es₁ ++ e :: es₂ ∧ e.At i ∧ ∀ e' ∈ es₁, ¬ e'.At i := by
    cases hf : es.find? fun e => decide (e.At i) with
    | none => exact absurd (by simpa using List.find?_eq_none.mp hf) hall
    | some e =>
      obtain ⟨hat, es₁, es₂, he, hbefore⟩ := List.find?_eq_some_iff_append.mp hf
      exact ⟨es₁, e, es₂, he, by simpa using hat, by simpa using hbefore⟩
  obtain ⟨v₁, r₁, r⟩ := r.split
  obtain ⟨v₂, hs, r₂⟩ := r.cons_inv
  obtain ⟨hc₁, hlog₁⟩ := elsewhere_run r₁ h.wf hbefore
  rw [hc] at hc₁
  have hwf₁ : Wf v₁ := r₁.inv Wf (fun _ _ _ h hs => h.step hs) h.wf
  have hbare₁ : ErrBare v₁ := r₁.inv ErrBare (fun _ _ _ h hs => h.step hs) h.errBare
  cases e with
  | accept sd uid privileges =>
    obtain rfl := hat
    exact absurd (List.mem_append_right _ (List.mem_cons_self ..)) (hno uid privileges)
  | acceptFailed => exact hat.elim
  | ready j ans =>
    obtain rfl := hat
    obtain ⟨hn, pre, hpre, hlog⟩ := hs.err_closed hwf₁ hbare₁ hc₁ he
    obtain ⟨hu, hlogu⟩ := empty_run r₂ (hwf₁.step hs) hn fun uid privileges hmem =>
      hno uid privileges (List.mem_append_right _ (List.mem_cons_of_mem _ hmem))
    exact ⟨es₁, ans, es₂, v₁, v₂, rfl, hbefore, r₁, hc₁, hs, hs.freed hwf₁ hc₁ hn, r₂, hu, fun _ _ h' => h'.empty hu,
      pre, hpre, by rw [hlogu, hlog, hlog₁]⟩

/-! ### A failed download -/

/-- The write of a guest's download fails, and the guest's next line is not handled any more. -/
theorem err_final_guest : ∃ (v v' : Server) (s : Session), Reachable default v ∧ v.connections 4 = some s ∧
    s.state = .err ∧ Steps default v (.ready 4 { read := some (ascii "file list\n") }) v' ∧ Freed 4 v v' := by
  have h : (Server.exec (fun _ _ => True) default longStored
      (guestWaits ++ [guestDownloads, .ready 4 { read := some (ascii "a"), write1 := .failed }])).any (fun v =>
        (v.connections 4).any (fun s => s.state == .err &&
          (v.step default (.ready 4 { read := some (ascii "file list\n") })).toOption.any fun v' =>
            (v'.connections 4).isNone)) = true := by
    decide +kernel
  simp only [Option.any_eq_true, Bool.and_eq_true, beq_iff_eq, Option.isNone_iff_eq_none] at h
  obtain ⟨v, hv, s, hc, hst, v', hv', hn⟩ := h
  have hstep : Steps default v (.ready 4 { read := some (ascii "file list\n") }) v' := .of_toOption hv'
  have hreach : Reachable default v := ⟨_, _, _, _, (Server.exec_run hv).unguard⟩
  exact ⟨v, v', s, hreach, hc, hst, hstep, ((err_final hreach hc).1 _ _ hstep).1 hn⟩

end BbsServer
