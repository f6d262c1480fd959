import BbsServer.OwnLog
import BbsServer.UploadSound

/-!
# Downloads, package by package

A download sends the bytes of its file in order, between two confirmations at most as many as the last
one named, and pauses only at the end of a package (`download_delivers`). What has been sent and what
has been confirmed is read from the log of the session.
-/

namespace BbsServer

open CStr Function Runs

/-- The bytes sent since the file was opened, the number of bytes confirmed last, how many were sent
since, and whether the client has cancelled. -/
structure Delivery where
  bytes : Bytes
  credit : Int
  since : Nat
  cancelled : Bool

def Delivery.start : Delivery := { bytes := [], credit := packageSize, since := 0, cancelled := false }

def Delivery.send (d : Delivery) (bs : Bytes) : Delivery :=
    { d with bytes := d.bytes ++ bs, since := d.since + bs.length }

def isContinue (line : Bytes) : Bool := strncmpZero line (ascii "continue") 8

def Delivery.confirm (d : Delivery) (line : Bytes) : Delivery :=
  if isContinue line then { d with credit := scanContinue line, since := 0 }
  else if strncmpZero line (ascii "cancel") 6 then { d with cancelled := true }
  else d

def delivery : List Act → Delivery
  | [] => .start
  | .opened .. :: _ => .start
  | .wrote _ bs :: t => (delivery t).send bs
  | .handled _ .opDownloadWaitConfirmPackage (some l) :: t => (delivery t).confirm l
  | _ :: t => delivery t

def deliveryAt (i : Nat) (v : Server) : Delivery := delivery (logOf i v.world.trace)

/-- The session in slot `i` downloads, and an event for it brings the next bytes of `content`, which
are sent in full, or a line that confirms no negative number. -/
def DownloadAnswers (content : Bytes) (i : Nat) (v : Server) : Event → Prop
  | .accept sd _ _ => sd ≠ i
  | .acceptFailed => True
  | .ready j ans => j = i → ∀ s ∈ v.connections i, ∃ f ∈ s.file,
      (s.state = .opDownload ∧ (f.packageRest ≠ 0 → ans.write1 = .full ∧ ∃ bs ∈ ans.read,
        bs <+: content.drop (deliveryAt i v).bytes.length ∧
          (bs = [] → content.length ≤ (deliveryAt i v).bytes.length))) ∨
      (s.state = .opDownloadWaitConfirmPackage ∧ ∀ r ∈ lineOf ans s, isContinue r.1 → 0 ≤ scanContinue r.1)

instance (content : Bytes) (i : Nat) (v : Server) : ∀ e, Decidable (DownloadAnswers content i v e)
  | .accept .. => by unfold DownloadAnswers; infer_instance
  | .acceptFailed => .isTrue trivial
  | .ready .. => by unfold DownloadAnswers; infer_instance

section
variable {P : Platform} {ans : Answers} {w w' : World} {s s' : Session} {l : Bytes} {i : Nat} {content : Bytes}
  {f : SFile}

/-! ## The log of a session -/

theorem logOf_own {a : Act} (h : a.owner = some i) (t : List Act) : logOf i (a :: t) = a :: logOf i t :=
  List.filter_cons_of_pos (by simp [h])

theorem delivery_closeFd : delivery (logOf i (w.closeFd s).trace) = delivery (logOf i w.trace) := by
  unfold World.closeFd
  split
  · by_cases h : s.sd = i
    · exact (congrArg delivery (logOf_own (show (Act.closed s.sd _ _ _).owner = some i from congrArg some h) _)).trans rfl
    · exact congrArg delivery (List.filter_cons_of_neg (by simpa [Act.owner] using h))
  · rfl

theorem delivery_clear : delivery (logOf i (clearFileFromSess w s).1.trace) = delivery (logOf i w.trace) := by
  unfold clearFileFromSess
  split
  · rfl
  · exact delivery_closeFd

theorem delivery_closeSession (hs : s.sd = i) : delivery (logOf i (closeSession w s i).trace) =
    delivery (logOf i w.trace) := by
  have hsd : (clearFileFromSess w s).2.sd = i := by rw [clearFileFromSess_sd, hs]
  rw [closeSession_eq, World.close,
    logOf_own (show (Act.closed (clearFileFromSess w s).2.sd _ _ _).owner = some i from congrArg some hsd)]
  exact delivery_clear

/-! ## What is confirmed -/

theorem scanContinue_decimal {n : Nat} (hn : n < 2 ^ 31) {t : Bytes} (ht : ∀ c ∈ t.head?, isdigit c = false) :
    scanContinue (ascii "continue " ++ (decimal n ++ t)) = n := by
  have hdrop : (ascii "continue " ++ (decimal n ++ t)).drop 8 = 32 :: (decimal n ++ t) := rfl
  have hscan : scanNum (32 :: (decimal n ++ t)) = scanNum (decimal n ++ t) := rfl
  unfold scanContinue scanInt
  rw [hdrop, hscan, scanNum_decimal n ht]
  have hl : toLong false n = n := by
    unfold toLong
    rw [if_neg (by decide)]
    omega
  show wrap 32 (toLong false n) = n
  rw [hl]
  exact toInt_of_lt (by omega) (by omega)

theorem scanContinue_bare :
    scanContinue (ascii "continue") = packageSize ∧ scanContinue (ascii "continue\n") = packageSize := by
  decide

theorem scanContinue_lt : scanContinue l < 2 ^ 31 := by
  have hwrap : ∀ x, wrap 32 x < 2 ^ 31 := fun x => by
    unfold wrap
    exact Int.bmod_lt (by decide)
  unfold scanContinue scanInt
  cases scanNum (l.drop 8) with
  | none => decide
  | some r => exact hwrap _

/-! ## One step of the download -/

theorem fileDownload_sent {bs : Bytes} (hf : s.file = some f) (hp : f.packageRest ≠ 0) (hread : ans.read = some bs)
    (hne : bs ≠ []) (hw : ans.write1 = .full) (hle : bs.length ≤ f.rest) (hr : f.rest < 2 ^ 64)
    (hp64 : f.packageRest < 2 ^ 64) (h : fileDownload ans w s = .ok (w', s')) : bs.length ≤ f.packageRest ∧
    ((f.rest = bs.length ∧ w' = (w.log (.wrote s.sd bs)).closeFd s ∧ s' = s.cleared .opWait) ∨
      (f.rest ≠ bs.length ∧ w' = w.log (.wrote s.sd bs) ∧
        s'.file = some { f with rest := f.rest - bs.length, packageRest := f.packageRest - bs.length } ∧
        s'.state = if f.packageRest = bs.length then .opDownloadWaitConfirmPackage else s.state)) := by
  have hpos : 0 < bs.length := List.length_pos_iff.mpr hne
  unfold fileDownload at h
  rw [hf] at h
  obtain ⟨g, hg, h⟩ := bind_ok.mp h
  cases hg
  rw [if_neg hp] at h
  simp only [hread, Option.getD_some, readLength] at h
  by_cases hlen : (if f.packageRest < inBufSize then f.packageRest
      else if f.rest < inBufSize then f.rest else inBufSize) < bs.length
  · rw [if_pos hlen] at h
    cases h
  have hfit : bs.length ≤ f.packageRest := by
    split at hlen
    · omega
    · split at hlen <;> omega
  have hsize : sizeT (bs.length : Int) = bs.length := sizeT_of_lt (by omega)
  have hslice : bufSlice ans bs 0 bs.length = bs := by
    rw [bufSlice_eq (by omega), List.drop_zero, List.take_length]
  rw [if_neg hlen, if_neg (by omega), hsize, hw] at h
  simp only [WriteAnswer.accepted, hslice, subSize_of_le hr hle, subSize_of_le hp64 hfit] at h
  refine ⟨hfit, ?_⟩
  by_cases h0 : f.rest - bs.length = 0
  · rw [if_pos h0] at h
    cases h
    exact .inl ⟨by omega, rfl, rfl⟩
  rw [if_neg h0] at h
  by_cases hp0 : f.packageRest - bs.length = 0
  · rw [if_pos hp0] at h
    cases h
    exact .inr ⟨by omega, rfl, rfl, by rw [if_pos (by omega)]⟩
  · rw [if_neg hp0] at h
    cases h
    exact .inr ⟨by omega, rfl, rfl, by rw [if_neg (by omega)]⟩

theorem fileDownload_paused (hf : s.file = some f) (hp : f.packageRest = 0) :
    fileDownload ans w s = .ok (w, { s with state := .opDownloadWaitConfirmPackage }) := by
  simp [fileDownload, hf, deref, hp]

/-! ## The invariant -/

structure Rests (content : Bytes) (d : Delivery) (s : Session) (f : SFile) : Prop where
  file : s.file = some f
  rest : d.bytes.length + f.rest = content.length
  package : (d.since + f.packageRest : Int) = d.credit
  credit : d.credit < 2 ^ 64
  more : f.rest = 0 → f.packageRest ≠ 0
  paused : s.state = .opDownloadWaitConfirmPackage → f.packageRest = 0

/-- What `d` has sent of `content`, and the state of its session, if it is still there. -/
structure Delivered (content : Bytes) (d : Delivery) (x : Option Session) : Prop where
  bytes : d.bytes <+: content
  credit : (d.since : Int) ≤ d.credit
  runs : ∀ s ∈ x, s.state = .opDownload ∨ s.state = .opDownloadWaitConfirmPackage → ∃ f, Rests content d s f
  ended : ∀ s ∈ x, s.state = .opWait → d.cancelled ∨ d.bytes = content

theorem Delivered.gone {d : Delivery} {x : Option Session} (h : Delivered content d x) : Delivered content d none :=
  ⟨h.bytes, h.credit, fun _ h => (by cases h), fun _ h => (by cases h)⟩

theorem send_prefix {d : Delivery} {bs : Bytes} (h : d.bytes <+: content) (hbs : bs <+: content.drop d.bytes.length) :
    (d.send bs).bytes <+: content := by
  obtain ⟨z, rfl⟩ := h
  rw [List.drop_left] at hbs
  obtain ⟨y, rfl⟩ := hbs
  exact ⟨y, List.append_assoc ..⟩

theorem Rests.send {d : Delivery} {bs : Bytes} (hr : Rests content d s f) (hst : s.state = .opDownload)
    (hle : bs.length < f.rest) (hfit : bs.length ≤ f.packageRest)
    (hf' : s'.file = some { f with rest := f.rest - bs.length, packageRest := f.packageRest - bs.length })
    (hst' : s'.state = if f.packageRest = bs.length then .opDownloadWaitConfirmPackage else s.state) :
    Rests content (d.send bs) s' { f with rest := f.rest - bs.length, packageRest := f.packageRest - bs.length } where
  file := hf'
  rest := by
    have := hr.rest
    show (d.bytes ++ bs).length + (f.rest - bs.length) = content.length
    rw [List.length_append]
    omega
  package := by
    have := hr.package
    show (((d.since + bs.length : Nat) : Int) + ((f.packageRest - bs.length : Nat) : Int)) = d.credit
    omega
  credit := hr.credit
  more h := absurd (show f.rest - bs.length = 0 from h) (by omega)
  paused h := by
    show f.packageRest - bs.length = 0
    rw [hst'] at h
    split at h
    · omega
    · rw [hst] at h
      cases h

theorem delivered_download (hd : Delivered content (delivery (logOf s.sd w.trace)) (some s))
    (h64 : content.length < 2 ^ 64) (hst : s.state = .opDownload) (hf : s.file = some f)
    (hans : f.packageRest ≠ 0 → ans.write1 = .full ∧ ∃ bs ∈ ans.read,
      bs <+: content.drop (delivery (logOf s.sd w.trace)).bytes.length ∧
        (bs = [] → content.length ≤ (delivery (logOf s.sd w.trace)).bytes.length))
    (hx : fileDownload ans w s = .ok (w', s')) : Delivered content (delivery (logOf s.sd w'.trace)) (some s') := by
  obtain ⟨g, hr⟩ := hd.runs s rfl (.inl hst)
  obtain rfl : g = f := Option.some.inj (hr.file.symm.trans hf)
  have hbytes := hd.bytes
  have hcredit := hd.credit
  generalize hdel : delivery (logOf s.sd w.trace) = d at *
  by_cases hp : g.packageRest = 0
  · rw [fileDownload_paused hf hp] at hx
    cases hx
    rw [hdel]
    refine ⟨hbytes, hcredit, fun t ht _ => ?_, fun t ht h => ?_⟩
    · cases ht
      exact ⟨g, hf, hr.rest, hr.package, hr.credit, hr.more, fun _ => hp⟩
    · cases ht
      cases h
  obtain ⟨hw, bs, hread, hpre, hend⟩ := hans hp
  have hread : ans.read = some bs := hread
  have hrest := hr.rest
  have hpackage := hr.package
  by_cases hne : bs = []
  · -- the file is empty
    have hlen := hend hne
    rw [fileDownload_ended hf (hne ▸ hread) (by omega) hp] at hx
    cases hx
    rw [hdel]
    refine ⟨hbytes, hcredit, fun t ht h => ?_, fun t ht _ => .inr (hbytes.eq_of_length (by omega))⟩
    cases ht
    rcases h with h | h <;> cases h
  have hle : bs.length ≤ g.rest := by
    have := hpre.length_le
    rw [List.length_drop] at this
    omega
  obtain ⟨hfit, hcases⟩ := fileDownload_sent hf hp hread hne hw hle (by omega) (by have := hr.credit; omega) hx
  have hsend : delivery (logOf s.sd (w.log (.wrote s.sd bs)).trace) = d.send bs := by
    rw [World.log_trace, logOf_own rfl, ← hdel]
    rfl
  have hcredit' : ((d.send bs).since : Int) ≤ (d.send bs).credit := by
    show ((d.since + bs.length : Nat) : Int) ≤ d.credit
    omega
  have hbytes' := send_prefix hbytes hpre
  rcases hcases with ⟨h0, rfl, rfl⟩ | ⟨h0, rfl, hf', hst'⟩
  · rw [delivery_closeFd, hsend]
    refine ⟨hbytes', hcredit', fun t ht h => ?_, fun t ht _ => .inr (hbytes'.eq_of_length ?_)⟩
    · cases ht
      rcases h with h | h <;> cases h
    · show (d.bytes ++ bs).length = content.length
      rw [List.length_append, ← hrest, h0]
  · rw [hsend]
    refine ⟨hbytes', hcredit', fun t ht _ => ?_, fun t ht h => ?_⟩
    · cases ht
      exact ⟨_, hr.send hst (by omega) hfit hf' hst'⟩
    · cases ht
      rw [hst'] at h
      split at h
      · cases h
      · rw [hst] at h
        cases h

theorem delivered_confirm {d : Delivery} (hd : Delivered content d (some s))
    (hst : s.state = .opDownloadWaitConfirmPackage)
    (hlog : delivery (logOf s.sd w.trace) = d.confirm l) (hl : isContinue l → 0 ≤ scanContinue l)
    (hx : downloadConfirm w s l = .ok (w', s')) : Delivered content (delivery (logOf s.sd w'.trace)) (some s') := by
  obtain ⟨f, hr⟩ := hd.runs s rfl (.inr hst)
  have hrest : f.rest ≠ 0 := fun h => hr.more h (hr.paused hst)
  unfold downloadConfirm at hx
  unfold Delivery.confirm at hlog
  by_cases hc : isContinue l = true
  · rw [if_pos hc] at hlog
    rw [if_pos (show strncmpZero l (ascii "continue") 8 = true from hc)] at hx
    obtain ⟨g, hg, hx⟩ := bind_ok.mp hx
    obtain rfl : f = g := Option.some.inj (hr.file.symm.trans (deref_ok.mp hg))
    cases hx
    rw [hlog]
    have h0 := hl hc
    have hlt : scanContinue l < 2 ^ 31 := scanContinue_lt
    refine ⟨hd.bytes, h0, fun t ht _ => ?_, fun t ht h => ?_⟩
    · cases ht
      refine ⟨_, rfl, hr.rest, ?_, ?_, fun h => absurd h hrest, fun h => by cases h⟩
      · show ((0 : Nat) : Int) + (sizeT (scanContinue l) : Int) = scanContinue l
        unfold sizeT
        omega
      · show scanContinue l < 2 ^ 64
        omega
    · cases ht
      cases h
  rw [if_neg hc] at hlog
  rw [if_neg (show ¬ strncmpZero l (ascii "continue") 8 = true from hc)] at hx
  by_cases hn : strncmpZero l (ascii "cancel") 6 = true
  · rw [if_pos hn] at hlog hx
    obtain ⟨g, hg, hx⟩ := bind_ok.mp hx
    rw [clearFileFromSess_some w hr.file] at hx
    cases hx
    rw [delivery_closeFd, hlog]
    refine ⟨hd.bytes, hd.credit, fun t ht h => ?_, fun t ht _ => .inl rfl⟩
    cases ht
    rcases h with h | h <;> cases h
  · rw [if_neg hn] at hlog hx
    cases hx
    rw [hlog]
    exact hd

/-! ## One event, and runs -/

variable {v v' : Server} {e : Event}

theorem delivered_step (h : Wf v) (h64 : content.length < 2 ^ 64)
    (hd : Delivered content (deliveryAt i v) (v.connections i))
    (hok : DownloadAnswers content i v e) (hs : Steps P v e v') : Delivered content (deliveryAt i v') (v'.connections i) := by
  by_cases he : e.At i
  case neg =>
    unfold deliveryAt
    rw [hs.logOf_eq h he, hs.elsewhere he]
    exact hd
  cases e with
  | accept sd => exact absurd he hok
  | acceptFailed => exact he.elim
  | ready j ans =>
    obtain rfl : j = i := he
    -- the session and its guard
    have guard : ∀ {s}, v.connections j = some s → ∃ f ∈ s.file, _ := fun hc => hok rfl _ hc
    have hself : ∀ {w x}, (v.set j w x).connections j = x := update_self ..
    cases step_stepped hs with
    | idle => exact hd
    | @transfer _ _ s w' s' hc hst _ hx =>
      obtain rfl : s.sd = j := h.sd hc
      rw [hc] at hd
      obtain ⟨f, hf, ⟨hst, hans⟩ | ⟨hst', -⟩⟩ := guard hc
      · rw [performSessionAction_download hst] at hx
        have hlog : delivery (logOf s.sd (v.world.log (.handled s.sd s.state none)).trace) = deliveryAt s.sd v := by
          rw [World.log_trace, logOf_own rfl, hst]
          rfl
        rw [hself]
        refine delivered_download ?_ h64 hst hf ?_ hx
        · rwa [hlog]
        · rwa [hlog]
      · rw [hst'] at hst
        simp at hst
    | @line _ _ s bs l b w' s' hc hup hdl hread hne _ hq hx₀ =>
      obtain rfl : s.sd = j := h.sd hc
      rw [hc] at hd
      obtain ⟨f, hf, ⟨hst, -⟩ | ⟨hst, hans⟩⟩ := guard hc
      · exact absurd hst hdl
      have hline : lineOf ans s = some (l, b) := by rw [lineOf_eq hread hne, hq]
      have hx := hx₀
      rw [performSessionAction_confirm (s := { s with buf := b }) hst] at hx
      have hlog : delivery (logOf s.sd (v.world.log (.handled s.sd s.state (some l))).trace) =
        (deliveryAt s.sd v).confirm l := by
        rw [World.log_trace, logOf_own rfl, hst]
        rfl
      have hd' : Delivered content (delivery (logOf s.sd w'.trace)) (some s') := by
        refine delivered_confirm (s := { s with buf := b }) ⟨hd.bytes, hd.credit, fun t ht h => ?_,
          fun t ht h => ?_⟩ hst hlog
          (hans _ hline) hx
        · cases ht
          obtain ⟨f, hr⟩ := hd.runs s rfl h
          exact ⟨f, hr.file, hr.rest, hr.package, hr.credit, hr.more, hr.paused⟩
        · cases ht
          exact hd.ended s rfl h
      split
      · have hsd : s'.sd = s.sd := (performSessionAction_did hx₀).sd_eq
        unfold deliveryAt
        rw [hself, Server.set_world, delivery_closeSession hsd]
        exact hd'.gone
      · rw [hself]
        exact hd'
    | @closed _ _ s st b hc =>
      obtain rfl : s.sd = j := h.sd hc
      rw [hself]
      unfold deliveryAt
      rw [Server.set_world, closeSession_congr, delivery_closeSession rfl]
      exact hd.gone

theorem download_begins (h : Wf v) (hs : Steps P v e v') (hc : v.connections i = some s) (hst : s.state = .opWait)
    (hc' : v'.connections i = some s') (hst' : s'.state = .opDownload) :
    ∃ path content d f, s'.fd = some d ∧ v'.world.fds d = some (.file path) ∧ v'.world.disk path = some content ∧
      s'.file = some f ∧ f.size = content.length ∧ f.rest = content.length ∧ f.packageRest = packageSize ∧
      deliveryAt i v' = .start := by
  obtain rfl : s.sd = i := h.sd hc
  rcases hs.session hc' with ⟨_, _, -, rfl⟩ | hc₁ | ⟨ans, t, line, b, -, ht, hd⟩
  · cases hst'
  · obtain rfl := Option.some.inj (hc.symm.trans hc₁)
    rw [hst] at hst'
    cases hst'
  obtain rfl : s = t := Option.some.inj (hc.symm.trans ht)
  have hdl : s.state ≠ .opDownload := by simp [hst]
  unfold deliveryAt
  generalize v'.world = w' at hd ⊢
  cases hd with
  | @sending l sf d w' _ _ _ _ ho hsize =>
    obtain ⟨⟨-, hdisk, -⟩, he⟩ := World.openRead_ok ho
    obtain ⟨content, hcont⟩ := Option.isSome_iff_exists.mp hdisk
    have hlen : sf.size = content.length := by rw [hsize, hcont, Option.getD_some]
    refine ⟨storagePath sf.hash, content, d, _, rfl, ?_, ?_, rfl, hlen, hlen, rfl, ?_⟩
    · rw [he]
      exact update_self ..
    · rw [he]
      exact hcont
    · rw [he, logOf_own rfl]
      rfl
  | talked | notFound | notOpened | damaged | described => exact absurd hst' hdl
  | dropped =>
    rw [clearFileFromSess_state] at hst'
    exact absurd hst' hdl
  | moved h => simp [hst] at h
  | released h => simp [hst] at h
  | stored h => simp [hst] at h
  | _ => cases hst'

end

/-- **Downloads.** A download, begun in any reachable state, has at every moment sent a prefix of its file,
and since the last confirmation at most as many bytes as it named. It pauses only if these have all been
sent and there are more, and waits for a command only if everything has been sent or the client has
cancelled. -/
theorem download_delivers {P : Platform} {v v' : Server} {e : Event} {i : Nat} {s s' : Session} (h : Reachable P v)
    (hs : Steps P v e v') (hc : v.connections i = some s) (hst : s.state = .opWait) (hc' : v'.connections i = some s')
    (hst' : s'.state = .opDownload) :
    (∀ n < 2 ^ 31, ∀ t : Bytes, (∀ c ∈ t.head?, isdigit c = false) →
      scanContinue (ascii "continue " ++ (decimal n ++ t)) = n) ∧
    scanContinue (ascii "continue") = packageSize ∧ scanContinue (ascii "continue\n") = packageSize ∧
    ∃ path content d f, s'.fd = some d ∧ v'.world.fds d = some (.file path) ∧ v'.world.disk path = some content ∧
      s'.file = some f ∧ f.size = content.length ∧ (f.size < 2 ^ 64 → ∀ es u,
        Run (Guarded (DownloadAnswers content i) (Steps P)) v' es u →
          (deliveryAt i u).bytes <+: content ∧ ((deliveryAt i u).since : Int) ≤ (deliveryAt i u).credit ∧
          ∀ t, u.connections i = some t →
            (t.state = .opDownloadWaitConfirmPackage → ((deliveryAt i u).since : Int) = (deliveryAt i u).credit ∧
              (deliveryAt i u).bytes.length < content.length) ∧
            (t.state = .opWait → (deliveryAt i u).cancelled ∨ (deliveryAt i u).bytes = content)) := by
  refine ⟨fun n hn t ht => scanContinue_decimal hn ht, scanContinue_bare.1, scanContinue_bare.2, ?_⟩
  obtain ⟨path, content, d, f, hd, hfd, hdisk, hf, hsize, hrest, hpr, hdel⟩ := download_begins h.wf hs hc hst hc' hst'
  refine ⟨path, content, d, f, hd, hfd, hdisk, hf, hsize, fun h64 es u r => ?_⟩
  rw [hsize] at h64
  have hstart : Delivered content (deliveryAt i v') (v'.connections i) := by
    rw [hdel, hc']
    refine ⟨List.nil_prefix, by decide, fun t ht _ => ?_, fun t ht h => ?_⟩
    · cases ht
      refine ⟨f, hf, ?_, ?_, by decide, fun _ => by rw [hpr]; decide, fun h => ?_⟩
      · rw [hrest]
        exact Nat.zero_add _
      · rw [hpr]
        rfl
      · rw [hst'] at h
        cases h
    · cases ht
      rw [hst'] at h
      cases h
  have hdl : Delivered content (deliveryAt i u) (u.connections i) :=
    r.inv_under Wf (fun u => Delivered content (deliveryAt i u) (u.connections i)) (fun _ _ _ h hs => h.step hs.2)
      (fun _ _ _ h hd hs => delivered_step h h64 hd hs.1 hs.2) (h.wf.step hs) hstart
  refine ⟨hdl.bytes, hdl.credit, fun t ht => ⟨fun hst => ?_, fun hst => hdl.ended t ht hst⟩⟩
  obtain ⟨g, hr⟩ := hdl.runs t ht (.inr hst)
  have hp := hr.paused hst
  have hpackage := hr.package
  have hlen := hr.rest
  refine ⟨by omega, ?_⟩
  have : g.rest ≠ 0 := fun h => hr.more h hp
  omega

/-! ### A file of three bytes more than a package -/

def longFile : Bytes := List.replicate (packageSize + 3) 97

def longStored : Server := .start (fun p => if p = storagePath 0 then some longFile else none) .alice
  { rows := [{
      id := 1, userId := 1, name := ascii "a", size := packageSize + 3, description := [], permissions := 1, hash := 0 }]
    ids := by decide, idRange := by decide }

def guestWaits : List Event := [.accept 4 0 0, .ready 4 { read := some (ascii "anonymous") }]

def guestDownloads : Event := .ready 4 { read := some (ascii "file download [a]\n"), opened := some 6 }

def twoPackages : List Event :=
  List.replicate 10 (.ready 4 { read := some (List.replicate inBufSize 97) }) ++
    [.ready 4 { read := some (ascii "continue 3\n") }, .ready 4 { read := some (List.replicate 3 97) }]

theorem download_delivers_two_packages : ∃ v u t, Run (Guarded (DownloadAnswers longFile 4) (Steps default)) v twoPackages u ∧
    u.connections 4 = some t ∧ t.state = .opWait ∧
    ((deliveryAt 4 u).cancelled ∨ (deliveryAt 4 u).bytes = longFile) := by
  have h : (Server.exec (fun _ _ => True) default longStored guestWaits).any (fun v => (v.connections 4).any (fun s =>
      s.state == .opWait && (v.step default guestDownloads).toOption.any fun v' => (v'.connections 4).any fun s' =>
        s'.state == .opDownload && s'.fd.any (fun d => (v'.world.fds d).any (· == .file (storagePath 0))) &&
        v'.world.disk (storagePath 0) == some longFile &&
        (Server.exec (DownloadAnswers longFile 4) default v' twoPackages).any fun u =>
          (u.connections 4).any fun t => t.state == .opWait)) = true := by
    decide +kernel
  simp only [Option.any_eq_true, Bool.and_eq_true, beq_iff_eq] at h
  obtain ⟨v, hv, s, hc, hst, v', hv', s', hc', ⟨⟨hst', d, hd, k, hk, rfl⟩, hdisk⟩, u, hu, t, ht, htst⟩ := h
  have hstep : Steps default v guestDownloads v' := .of_toOption hv'
  obtain ⟨-, -, -, path, content, d', f, hd', hfd, hcont, -, hsize, hall⟩ :=
    download_delivers ⟨_, _, _, guestWaits, (Server.exec_run hv).unguard⟩ hstep hc hst hc' hst'
  obtain rfl : d = d' := Option.some.inj (hd.symm.trans hd')
  obtain rfl : storagePath 0 = path := by
    have := Option.some.inj (hk.symm.trans hfd)
    exact Handle.file.inj this
  obtain rfl : longFile = content := Option.some.inj (hdisk.symm.trans hcont)
  have hrun := Server.exec_run hu
  have hlen : f.size < 2 ^ 64 := by
    rw [hsize, longFile, List.length_replicate]
    decide
  exact ⟨v', u, t, hrun, ht, htst, ((hall hlen _ u hrun).2.2 t ht).2 htst⟩

end BbsServer
