import BootloaderV2.WriteAhead

/-!
# Runs of the server

A run is a sequence of requests and of turns of the timer after `BootUds_Init`, each with whatever
the environment decides for it.  Its transcript holds the requests with their responses.
-/

open BootConfig NorFlash CrashM TwoCopy

/-- What the environment decides for one turn of the server. -/
structure Turn where
  fates : List Fate
  hw : Hardware

def Turn.on (e : Turn) (b : Board) : Board :=
  { b with dev := { b.dev with fates := e.fates }, hw := e.hw }

/-- A request and the response to it. -/
structure Exchange where
  request : List Byte
  response : Option (List Byte)

/-- The server that `BootUds_Init` starts on `b₀` comes to a board with a transcript. -/
inductive Reaches (b₀ : Board) : List Exchange → Board → Prop where
  | start {b : Board} (h : BootUds.init b₀ = .done () b) : Reaches b₀ [] b
  | request {t : List Exchange} {b b' : Board} {q : List Byte} {r : Option (List Byte)} (e : Turn)
    (h : Reaches b₀ t b) (hq : BootUds.processRequest q (e.on b) = .done r b') :
    Reaches b₀ (t ++ [⟨q, r⟩]) b'
  | tick {t : List Exchange} {b b' : Board} (e : Turn) (h : Reaches b₀ t b)
    (hb : BootUds.mainFunction (e.on b) = .done () b') : Reaches b₀ t b'

/-- The context has session and security as the server has them. -/
structure Synced (b : Board) : Prop where
  session : b.ram.programming.sessionActive = (b.ram.uds.session == 2)
  unlocked : b.ram.programming.securityUnlocked = b.ram.security.unlocked

/-- Programming session and unlocked server. -/
def Authorised (b : Board) : Prop := b.ram.uds.session = 2 ∧ b.ram.security.unlocked = true

/-- Session and security are the same, in the server and in the context. -/
structure SameGate (b b' : Board) : Prop where
  session : b'.ram.uds.session = b.ram.uds.session
  resetPending : b'.ram.uds.resetPending = b.ram.uds.resetPending
  security : b'.ram.security = b.ram.security
  sessionActive : b'.ram.programming.sessionActive = b.ram.programming.sessionActive
  securityUnlocked : b'.ram.programming.securityUnlocked = b.ram.programming.securityUnlocked

theorem SameGate.refl (b : Board) : SameGate b b := ⟨rfl, rfl, rfl, rfl, rfl⟩

theorem SameGate.of_access {b b' : Board} (h : BootProgramming.SameAccess b b') : SameGate b b' :=
  ⟨by rw [h.uds], by rw [h.uds], h.security, h.sessionActive, h.securityUnlocked⟩

theorem SameGate.of_server {b b' : Board} (h : SameServer b b') : SameGate b b' :=
  ⟨by rw [h.uds], by rw [h.uds], h.security, by rw [h.programming], by rw [h.programming]⟩

theorem SameGate.synced {b b' : Board} (h : SameGate b b') (hs : Synced b) : Synced b' :=
  ⟨by rw [h.sessionActive, h.session, hs.session],
    by rw [h.securityUnlocked, h.security, hs.unlocked]⟩

/-- Everything but session and security, in the server and in the context, is the same. -/
structure SameRest (b b' : Board) : Prop where
  dev : b'.dev = b.dev
  update : b'.ram.update = b.ram.update
  resetPending : b'.ram.uds.resetPending = b.ram.uds.resetPending
  programming : ∃ x y, b'.ram.programming =
    { b.ram.programming with sessionActive := x, securityUnlocked := y }

theorem SameRest.refl (b : Board) : SameRest b b := ⟨rfl, rfl, rfl, _, _, rfl⟩

theorem SameRest.inStep {b b' : Board} (h : SameRest b b') (hb : BootProgramming.InStep b) :
    BootProgramming.InStep b' := by
  obtain ⟨hdev, hupdate, -, x, y, hprog⟩ := h
  have hmem : b'.mem = b.mem := congrArg Device.mem hdev
  refine ⟨?_, ?_, ?_, ?_, ?_, ?_⟩ <;> rw [hupdate, hprog]
  · rw [hmem]
    exact hb.stored
  · rw [hmem]
    exact hb.current
  · exact hb.downloading
  · exact hb.erased
  · exact hb.transferred
  · exact hb.verified

namespace BootUds

open BootJournal (Current Keeping)
open BootProgramming (InStep flagged)

variable {b : Board} {R : CommandRel} {q : List Byte}

/-- The states in which a request writes to the target slot. -/
def SlotStates (q : List Byte) (st : Word) : Prop :=
  if q.headD 0 = 0x31 then
    ((q.getD 2 0).toNat * 256 + (q.getD 3 0).toNat = routineEraseApp ∧
      st = BootUpdateState.erasing.code) ∨
    ((q.getD 2 0).toNat * 256 + (q.getD 3 0).toNat = routineVerifyCrc ∧
      st = BootUpdateState.verifying.code)
  else q.headD 0 = 0x36 ∧ st = BootUpdateState.programming.code

/-- `BootUds_AbortDownload`. -/
theorem issues_abortDownload :
    Issues Keeping abortDownload
      (fun _ b' => flagged b'.ram.programming = false ∧ SameGate b b') b := by
  have hclear : ∀ {b' : Board}, SameGate b b' → Issues Keeping
      (do BootProgramming.abort; BootM.setUds fun u => { u with transferTimeout := 0 })
      (fun _ b'' => flagged b''.ram.programming = false ∧ SameGate b b'') b' := by
    intro b' h
    unfold BootProgramming.abort
    rw [Issues.bind_setProgramming]
    exact ⟨.refl _, BootProgramming.flagged_aborted _, h.1, h.2, h.3, h.4, h.5⟩
  unfold abortDownload
  rw [Issues.bind_getRam]
  dsimp only
  refine .ite (fun _ => ?_) fun _ => hclear (.refl b)
  refine BootUpdate.issues_abort.bind ?_
  rintro ok b' ⟨d, u, rfl, -⟩
  exact hclear ⟨rfl, rfl, rfl, rfl, rfl⟩

/-- The timer of an idle download. -/
theorem issues_mainFunction (h : InStep b) :
    Issues Keeping mainFunction (fun _ b' => InStep b' ∧ SameGate b b') b := by
  unfold mainFunction
  rw [Issues.bind_getRam]
  refine .ite (fun _ => ?_) fun _ => .pure ⟨h, .refl b⟩
  rw [Issues.bind_setUds]
  refine .ite (fun _ => ?_) fun _ => .pure ⟨h.congr rfl rfl rfl, rfl, rfl, rfl, rfl, rfl⟩
  refine issues_abortDownload.mono ?_
  rintro _ b' ⟨hc, hg⟩
  exact ⟨.of_clear hc, hg.1, hg.2, hg.3, hg.4, hg.5⟩

/-- Service 10 without its session check. -/
theorem issues_sessionControl :
    Issues Keeping (sessionControl q) (fun ans b' =>
      ((∃ nrc, ans = .error nrc) ∧ b' = b) ∨
      ((∃ s rest, ans = .ok (0x50 :: s :: rest)) ∧ flagged b'.ram.programming = false ∧ Synced b' ∧
        b'.ram.security.unlocked = false ∧ b'.ram.security.seedIssued = false ∧
        b'.ram.uds.resetPending = b.ram.uds.resetPending)) b := by
  unfold sessionControl
  refine .ite (fun _ => .pure (.inl ⟨⟨_, rfl⟩, rfl⟩)) fun _ => ?_
  dsimp only
  refine .ite (fun _ => .pure (.inl ⟨⟨_, rfl⟩, rfl⟩)) fun _ => ?_
  rw [Issues.bind_setUds]
  unfold BootSecurity.init
  rw [Issues.bind_setSecurity]
  refine issues_abortDownload.bind ?_
  rintro _ b₁ ⟨hclear, hgate⟩
  unfold BootProgramming.setAccess
  rw [Issues.bind_setProgramming]
  refine .pure (.inr ⟨⟨_, _, rfl⟩, hclear, ⟨?_, ?_⟩, ?_, ?_, hgate.resetPending⟩)
  · show (q.getD 1 0 == 2) = (b₁.ram.uds.session == 2)
    rw [hgate.session]
  · show false = b₁.ram.security.unlocked
    rw [hgate.security]
  · show b₁.ram.security.unlocked = false
    rw [hgate.security]
  · show b₁.ram.security.seedIssued = false
    rw [hgate.security]

/-- The board a service runs on: the dispatcher copies the access into the context. -/
def refreshed (b : Board) : Board :=
  { b with ram := { b.ram with programming := { b.ram.programming with
      sessionActive := b.ram.uds.session == 2
      securityUnlocked := b.ram.security.unlocked } } }

theorem refreshed_synced (b : Board) : Synced (refreshed b) := ⟨rfl, rfl⟩

theorem sameRest_refreshed (b : Board) : SameRest b (refreshed b) := ⟨rfl, rfl, rfl, _, _, rfl⟩

/-- A context in step with the server needs no refreshing. -/
theorem refreshed_eq_iff : refreshed b = b ↔ Synced b := by
  constructor
  · intro h
    rw [← h]
    exact refreshed_synced b
  · rintro ⟨hs, hu⟩
    unfold refreshed
    rw [← hs, ← hu]

/-- The board with other variables of `boot_security.c`, and the context in step with them. -/
def secured (b : Board) (s : BootSecurity.State) : Board :=
  refreshed { b with ram := { b.ram with security := s } }

theorem sameRest_secured (b : Board) (s : BootSecurity.State) : SameRest b (secured b s) :=
  ⟨rfl, rfl, rfl, _, _, rfl⟩

theorem bind_setAccess {α : Type} {n : BootM α} {Q : α → Board → Prop} :
    Issues R (do
      let ram ← BootM.getRam
      BootProgramming.setAccess (ram.uds.session == 2) ram.security.unlocked
      n) Q b ↔ Issues R n Q (refreshed b) := Iff.rfl

/-- Service 27 without its session check: how it answers, and what it does to the access. -/
inductive Access (q : List Byte) (b : Board) : Answer → Board → Prop where
  /-- refused, without effect -/
  | refused {nrc : Byte} (h : nrc ≠ 0x35)
    (hwhy : b.ram.uds.session = 2 → ¬ (q.length = 2 ∧ q.getD 1 0 = 1) ∧
      ¬ (q.length = 6 ∧ q.getD 1 0 = 2)) : Access q b (.error nrc) b
  /-- a new seed -/
  | seeded {seed nonce : Word} (hs : b.ram.uds.session = 2) (hlen : q.length = 2)
    (hsub : q.getD 1 0 = 1) : Access q b (.ok ([0x67, 1] ++ write32 seed))
      (secured b ⟨seed, true, false, nonce⟩)
  /-- the key of the seed -/
  | accepted (hs : b.ram.uds.session = 2) (hlen : q.length = 6) (hsub : q.getD 1 0 = 2)
    (hissued : b.ram.security.seedIssued = true)
    (hkey : read32 (q.drop 2) = BootSecurity.expectedKey b.ram.security.seed) :
    Access q b (.ok [0x67, 2])
      (secured b { b.ram.security with seedIssued := false, unlocked := true })
  /-- another key, or a key without a seed; the context is not told -/
  | rejected (hs : b.ram.uds.session = 2) (hlen : q.length = 6) (hsub : q.getD 1 0 = 2)
    (hkey : b.ram.security.seedIssued = false ∨
      read32 (q.drop 2) ≠ BootSecurity.expectedKey b.ram.security.seed) :
    Access q b (.error 0x35) { b with ram := { b.ram with security :=
      { b.ram.security with unlocked := false, seedIssued := false } } }

/-- Programs that draw a seed, for any generator `g`. -/
theorem issues_drawSeed {g : Board → Word × Word} {Q : Answer → Board → Prop}
    (h : ∀ seed nonce, Q (.ok ([0x67, 1] ++ write32 seed)) (secured b ⟨seed, true, false, nonce⟩)) :
    Issues R (do
      let c ← CrashM.get
      BootM.setSecurity fun s =>
        { s with unlocked := false, nonce := (g c).2, seed := (g c).1, seedIssued := true }
      let ram ← BootM.getRam
      BootProgramming.setAccess (ram.uds.session == 2) ram.security.unlocked
      return .ok ([0x67, 1] ++ write32 (g c).1)) Q b := by
  rw [Issues.bind_get, Issues.bind_setSecurity]
  exact bind_setAccess.2 (.pure (h _ _))

theorem issues_securityAccess (hb : Synced b) :
    Issues Nothing (securityAccess q) (Access q b) b := by
  unfold securityAccess
  rw [Issues.bind_getRam]
  refine .ite (fun hs => .pure (.refused (by decide) fun h => absurd h hs)) fun hs => ?_
  have hs' : b.ram.uds.session = 2 := not_not.1 hs
  refine .ite (fun hq => ?_) fun hseed => .ite (fun hq => ?_) fun hkey => ?_
  · exact issues_drawSeed (g := fun c =>
      let nonce := c.ram.security.nonce * 1664525 + 1013904223
      let mixed := nonce ^^^ c.hw.canTimer
      (if mixed = 0 then 0x6D2B79F5 else mixed, nonce)) fun _ _ => .seeded hs' hq.1 hq.2
  · unfold BootSecurity.validateKey
    refine Issues.bind (Q := fun ok b' => ok = true ∧ b.ram.security.seedIssued = true ∧
        read32 (q.drop 2) = BootSecurity.expectedKey b.ram.security.seed ∧
        b' = { b with ram := { b.ram with security :=
          { b.ram.security with seedIssued := false, unlocked := true } } } ∨
      ok = false ∧ (b.ram.security.seedIssued = false ∨
        read32 (q.drop 2) ≠ BootSecurity.expectedKey b.ram.security.seed) ∧
        b' = { b with ram := { b.ram with security :=
          { b.ram.security with unlocked := false, seedIssued := false } } }) ?_ ?_
    · rw [Issues.bind_getRam]
      refine .ite (fun hbad => ?_) fun hgood => ?_
      · rw [Issues.bind_setSecurity]
        refine .pure (.inr ⟨rfl, ?_, rfl⟩)
        simpa only [Bool.or_eq_true, Bool.not_eq_true', bne_iff_ne] using hbad
      · rw [Issues.bind_setSecurity]
        simp only [Bool.or_eq_true, Bool.not_eq_true', bne_iff_ne, not_or, not_not,
          Bool.not_eq_false] at hgood
        exact .pure (.inl ⟨rfl, hgood.1, hgood.2, rfl⟩)
    · rintro ok b' (⟨rfl, hissued, hkey, rfl⟩ | ⟨rfl, hkey, rfl⟩)
      · refine .ite (fun h => absurd h (by decide)) fun _ => ?_
        exact bind_setAccess.2 (.pure (.accepted hs' hq.1 hq.2 hissued hkey))
      · exact .ite (fun _ => .pure (.rejected hs' hq.1 hq.2 hkey)) fun h => absurd rfl h
  · have hsame : Access q b (.error 0x13) (refreshed b) := by
      rw [refreshed_eq_iff.2 hb]
      exact .refused (by decide) fun _ => ⟨hseed, hkey⟩
    exact Issues.pure hsame

/-- Reading data loads the metadata again at most. -/
theorem issues_readData :
    Issues Nothing (readData q) (fun ans b' => b'.dev = b.dev ∧ b'.ram.update = b.ram.update ∧
      SameServer b b' ∧ ((∃ nrc, ans = .error nrc) → b' = b)) b := by
  have hsame : ∀ {ans : Answer}, Issues Nothing (Pure.pure ans) (fun ans b' => b'.dev = b.dev ∧
      b'.ram.update = b.ram.update ∧ SameServer b b' ∧ ((∃ nrc, ans = .error nrc) → b' = b)) b :=
    .pure ⟨rfl, rfl, .refl b, fun _ => rfl⟩
  unfold readData
  refine .ite (fun _ => hsame) fun _ => ?_
  dsimp only
  rw [Issues.bind_getRam]
  refine .ite (fun _ => hsame) fun _ => .ite (fun _ => hsame) fun _ => .ite (fun _ => hsame)
    fun _ => .ite (fun _ => hsame) fun _ => .ite (fun _ => ?_) fun _ => hsame
  unfold BootLifecycle.reload
  refine ⟨.refl _, rfl, rfl, ⟨rfl, rfl, rfl⟩, ?_⟩
  rintro ⟨nrc, hans⟩
  cases hans

end BootUds

/-- `BootUpdate_InitializeJournal` is refused while there is a current record. -/
theorem BootUpdate.issues_initializeJournal {b : Board} {active : SlotId} :
    Issues (fun c _ _ => c.InJournal) (initializeJournal active)
      (fun ok b' => SameServer b b' ∧
        ((∃ j, BootJournal.Current b.mem j) → ok = false ∧ b' = b)) b := by
  have hinit : (∀ j, ¬ BootJournal.Current b.mem j) → Issues (fun c _ _ => c.InJournal)
      (initializeUnset b.mem active)
      (fun ok b' => SameServer b b' ∧
        ((∃ j, BootJournal.Current b.mem j) → ok = false ∧ b' = b)) b := by
    intro hno
    refine .ite (fun _ => .pure ⟨.refl b, fun _ => ⟨rfl, rfl⟩⟩) fun _ => ?_
    refine BootJournal.issues_initializeStore.bind ?_
    rintro res b' ⟨d, rfl, -, -⟩
    cases res with
    | none => exact ⟨.refl _, ⟨rfl, rfl, rfl⟩, fun ⟨j, hj⟩ => absurd hj (hno j)⟩
    | some n => exact ⟨.refl _, ⟨rfl, rfl, rfl⟩, fun ⟨j, hj⟩ => absurd hj (hno j)⟩
  unfold initializeJournal
  rw [Issues.bind_flash]
  cases hl : BootJournal.loadLatest b.mem with
  | valid k j => exact .pure ⟨.refl b, fun _ => ⟨rfl, rfl⟩⟩
  | empty =>
    refine hinit ?_
    rintro j ⟨k, hk⟩
    rw [hl] at hk
    cases hk
  | invalid =>
    refine hinit ?_
    rintro j ⟨k, hk⟩
    rw [hl] at hk
    cases hk

namespace BootUds

open BootJournal (Keeping)
open BootProgramming (InStep flagged)

variable {b : Board} {R : CommandRel} {q : List Byte} {P : Word → Prop}

/-- A service leaves the context in step with the journal and the access as it was. -/
def Serves (b b' : Board) : Prop := InStep b' ∧ SameGate b b'

theorem Serves.of_keeps {b' : Board} (h : BootProgramming.Keeps b b') : Serves b b' :=
  ⟨h.1, .of_access h.2⟩

/-- Commissioning writes no slot, and nothing at all while a transfer has got somewhere. -/
theorem issues_commission (hb : Synced b) (hin : InStep b) :
    Issues (WriteAhead P) (commission q) (fun _ => Serves b) b := by
  have hsame : Serves b b := ⟨hin, .refl b⟩
  unfold commission
  rw [Issues.bind_getRam]
  refine .ite (fun _ => .pure hsame) fun _ => .ite (fun _ => .pure hsame) fun hsession =>
    .ite (fun _ => .pure hsame) fun hunlocked => ?_
  dsimp only
  refine .ite (fun _ => .pure hsame) fun _ => ?_
  refine BootProgramming.issues_transmit.bind ?_
  rintro ok b₁ ⟨hdev₁, hram₁⟩
  have hmem₁ : b₁.mem = b.mem := congrArg Device.mem hdev₁
  have hserver₁ : SameServer b b₁ := ⟨by rw [hram₁], by rw [hram₁], by rw [hram₁]⟩
  have hkept₁ : Serves b b₁ :=
    ⟨hin.congr hmem₁ (by rw [hram₁]) (by rw [hram₁]), .of_server hserver₁⟩
  refine .ite (fun _ => .pure hkept₁) fun _ => ?_
  refine (BootUpdate.issues_initializeJournal.weaken fun c m m' hc => ?_).bind ?_
  · exact WriteAhead.of_untouched hc.not_touches
  rintro ok b₂ ⟨hserver₂, hrefused⟩
  have hserver : SameServer b b₂ := hserver₁.trans hserver₂
  -- with a flag there is a current record, so that nothing is initialised
  by_cases hflag : flagged b.ram.programming = true
  · obtain ⟨rfl, rfl⟩ := hrefused (by rw [hmem₁]; exact (hin.stored hflag).2)
    exact .ite (fun _ => .pure hkept₁) fun h => absurd rfl h
  have hclear : ∀ {b' : Board}, SameServer b₂ b' → Serves b b' := by
    intro b' h
    refine ⟨.of_clear ?_, .of_server (hserver.trans h)⟩
    rw [(hserver.trans h).programming]
    exact Bool.eq_false_of_not_eq_true hflag
  refine .ite (fun _ => .pure (hclear (.refl _))) fun _ => ?_
  refine ((BootLifecycle.stored_init upkeep_closed.stored).ahead (b := b₂)).bind ?_
  intro ok b₃ h₃
  refine .ite (fun _ => .pure (hclear h₃)) fun _ => ?_
  refine ((BootManager.managed_captureActiveSlot
    (BootLifecycle.stored_managed upkeep_closed.stored)).ahead (b := b₃)).bind ?_
  intro _ b₄ h₄
  have hserver₄ : SameServer b b₄ := (hserver.trans h₃).trans h₄
  rw [Issues.bind_getRam]
  unfold BootProgramming.init BootProgramming.setAccess
  rw [Issues.bind_setProgramming, Issues.bind_setProgramming]
  have hs : b.ram.uds.session = 2 := not_not.1 hsession
  have hu : b.ram.security.unlocked = true := by simpa using hunlocked
  refine .pure ⟨.of_clear rfl, ?_, ?_, hserver₄.security, ?_, ?_⟩
  · show b₄.ram.uds.session = _
    rw [hserver₄.uds]
  · show b₄.ram.uds.resetPending = _
    rw [hserver₄.uds]
  · show true = b.ram.programming.sessionActive
    rw [hb.session, hs]
    rfl
  · show true = b.ram.programming.securityUnlocked
    rw [hb.unlocked, hu]

theorem issues_answer {m : BootM Byte} {response : List Byte} {Q : Board → Prop}
    (h : Issues R m (fun _ => Q) b) :
    Issues R (do return answer (← m) response) (fun _ => Q) b :=
  h.bind fun _ _ hq => .pure hq

theorem issues_routineControl (hb : Synced b) (hin : InStep b) (hhead : q.headD 0 = 0x31) :
    Issues (WriteAhead (SlotStates q)) (routineControl q) (fun _ => Serves b) b := by
  have hsame : Serves b b := ⟨hin, .refl b⟩
  have hstates : ∀ st, (q.getD 2 0).toNat * 256 + (q.getD 3 0).toNat = routineEraseApp ∧
      st = BootUpdateState.erasing.code ∨
      (q.getD 2 0).toNat * 256 + (q.getD 3 0).toNat = routineVerifyCrc ∧
        st = BootUpdateState.verifying.code → SlotStates q st := by
    intro st h
    unfold SlotStates
    rw [if_pos hhead]
    exact h
  unfold routineControl
  refine .ite (fun _ => .pure hsame) fun _ => .ite (fun _ => .pure hsame) fun _ => ?_
  dsimp only
  refine .ite (fun hr => ?_) fun _ => .ite (fun hr => ?_) fun _ => .ite (fun _ => ?_)
    fun _ => .pure hsame
  · refine .ite (fun _ => .pure hsame) fun _ => issues_answer ?_
    refine ((BootProgramming.issues_erase hin).weaken fun c m m' hc => ?_).mono fun _ _ => .of_keeps
    exact hc.mono fun st hst => hstates st (.inl ⟨hr, hst⟩)
  · refine .ite (fun _ => .pure hsame) fun _ => issues_answer ?_
    refine ((BootProgramming.issues_verify hin).weaken fun c m m' hc => ?_).mono fun _ _ => .of_keeps
    exact hc.mono fun st hst => hstates st (.inr ⟨hr, hst⟩)
  · exact issues_answer (issues_commission hb hin)

theorem issues_requestDownload (hin : InStep b) :
    Issues Keeping (requestDownload q) (fun _ => Serves b) b := by
  have hsame : Serves b b := ⟨hin, .refl b⟩
  unfold requestDownload
  refine .ite (fun _ => .pure hsame) fun _ => .ite (fun _ => .pure hsame) fun _ => ?_
  refine (BootProgramming.issues_download hin).bind ?_
  rintro nrc b' ⟨hin', ha⟩
  rw [Issues.bind_setUds]
  refine .pure ⟨hin'.congr rfl rfl rfl, ?_, ?_, ha.security, ha.sessionActive, ha.securityUnlocked⟩
  · show b'.ram.uds.session = _
    rw [ha.uds]
  · show b'.ram.uds.resetPending = _
    rw [ha.uds]

theorem issues_transferData (hin : InStep b) (hhead : q.headD 0 = 0x36) :
    Issues (WriteAhead (SlotStates q)) (transferData q) (fun _ => Serves b) b := by
  unfold transferData
  refine .ite (fun _ => .pure ⟨hin, .refl b⟩) fun _ => ?_
  refine Issues.bind (Q := fun _ => BootProgramming.Keeps b) ?_ ?_
  · refine (BootProgramming.issues_transfer hin).weaken fun c m m' hc => hc.mono fun st hst => ?_
    unfold SlotStates
    rw [hhead, if_neg (by decide)]
    exact ⟨rfl, hst⟩
  · rintro nrc b' ⟨hin', ha⟩
    refine .ite (fun _ => ?_) fun _ => .pure (.of_keeps ⟨hin', ha⟩)
    rw [Issues.bind_setUds]
    refine .pure ⟨hin'.congr rfl rfl rfl, ?_, ?_, ha.security, ha.sessionActive, ha.securityUnlocked⟩
    · show b'.ram.uds.session = _
      rw [ha.uds]
    · show b'.ram.uds.resetPending = _
      rw [ha.uds]

theorem issues_transferExit (hin : InStep b) :
    Issues Keeping (transferExit q) (fun _ => Serves b) b := by
  unfold transferExit
  refine .ite (fun _ => .pure ⟨hin, .refl b⟩) fun _ => issues_answer ?_
  exact (BootProgramming.issues_exit hin).mono fun _ _ => .of_keeps

/-- A reset is accepted from an authorised tester whose image is verified. -/
theorem issues_ecuReset :
    Issues Nothing (ecuReset q) (fun ans b' => ((∃ nrc, ans = .error nrc) ∧ b' = b) ∨
      (ans = .ok [0x51, 1] ∧ Authorised b ∧ BootProgramming.canReset b.ram = true ∧
        b' = { b with ram := { b.ram with uds := { b.ram.uds with resetPending := true } } })) b := by
  unfold ecuReset
  rw [Issues.bind_getRam]
  refine .ite (fun _ => .pure (.inl ⟨⟨_, rfl⟩, rfl⟩)) fun _ =>
    .ite (fun _ => .pure (.inl ⟨⟨_, rfl⟩, rfl⟩)) fun _ =>
    .ite (fun _ => .pure (.inl ⟨⟨_, rfl⟩, rfl⟩)) fun hs =>
    .ite (fun _ => .pure (.inl ⟨⟨_, rfl⟩, rfl⟩)) fun hu =>
    .ite (fun _ => .pure (.inl ⟨⟨_, rfl⟩, rfl⟩)) fun hr => ?_
  rw [Issues.bind_setUds]
  exact .pure (.inr ⟨rfl, ⟨not_not.1 hs, by simpa using hu⟩, by simpa using hr, rfl⟩)

theorem issues_testerPresent :
    Issues Nothing (testerPresent q) (fun _ b' => b' = b) b := by
  unfold testerPresent
  exact .ite (fun _ => .pure rfl) fun _ => .pure rfl

/-- What a request does to session and security, by its service. -/
structure Gate (q : List Byte) (b : Board) (ans : Answer) (b' : Board) : Prop where
  session : q.headD 0 = 0x10 → ((∃ nrc, ans = .error nrc) ∧ b' = b) ∨
    ((∃ s rest, ans = .ok (0x50 :: s :: rest)) ∧ Synced b' ∧ b'.ram.security.unlocked = false ∧
      b'.ram.security.seedIssued = false ∧ b'.ram.uds.resetPending = b.ram.uds.resetPending)
  access : q.headD 0 = 0x27 → Access q b ans b'
  reset : q.headD 0 = 0x11 → ((∃ nrc, ans = .error nrc) ∧ b' = b) ∨
    (ans = .ok [0x51, 1] ∧ Authorised b ∧ BootProgramming.canReset b.ram = true ∧
      b' = { b with ram := { b.ram with uds := { b.ram.uds with resetPending := true } } })
  rest : q.headD 0 ≠ 0x10 → q.headD 0 ≠ 0x27 → q.headD 0 ≠ 0x11 → SameGate b b'

theorem Gate.of_same {ans : Answer} {b' : Board} (hsession : q.headD 0 ≠ 0x10)
    (haccess : q.headD 0 ≠ 0x27) (hreset : q.headD 0 ≠ 0x11) (h : SameGate b b') : Gate q b ans b' :=
  ⟨fun h => absurd h hsession, fun h => absurd h haccess, fun h => absurd h hreset,
    fun _ _ _ => h⟩

theorem Access.sameRest {ans : Answer} {b' : Board} (h : Access q b ans b') : SameRest b b' := by
  cases h with
  | refused => exact .refl b
  | seeded => exact sameRest_secured b _
  | accepted => exact sameRest_secured b _
  | rejected => exact ⟨rfl, rfl, rfl, _, _, rfl⟩

/-- Every service writes ahead, keeps the context in step with the journal, and has the effect on
    the access that its gate allows. -/
theorem issues_service (hb : Synced b) (hin : InStep b) :
    Issues (WriteAhead (SlotStates q)) (service (q.headD 0) q)
      (fun ans b' => InStep b' ∧ Gate q b ans b') b := by
  unfold service
  refine .ite (fun hsid => ?_) fun h10 => .ite (fun hsid => ?_) fun h27 =>
    .ite (fun hsid => ?_) fun _ => .ite (fun hsid => ?_) fun _ => .ite (fun hsid => ?_) fun _ =>
    .ite (fun hsid => ?_) fun _ => .ite (fun hsid => ?_) fun _ => .ite (fun hsid => ?_) fun h11 =>
    .ite (fun hsid => ?_) fun _ => ?_
  · refine (issues_sessionControl.weaken fun _ _ _ hc => .of_keeping hc).mono ?_
    intro ans b' h
    refine ⟨?_, fun _ => ?_, fun h' => absurd (hsid.symm.trans h') (by decide),
      fun h' => absurd (hsid.symm.trans h') (by decide), fun h' => absurd hsid h'⟩
    · rcases h with ⟨-, rfl⟩ | ⟨-, hclear, -⟩
      · exact hin
      · exact .of_clear hclear
    · rcases h with ⟨hans, rfl⟩ | ⟨hans, -, hrest⟩
      · exact .inl ⟨hans, rfl⟩
      · exact .inr ⟨hans, hrest⟩
  · refine (issues_securityAccess hb).of_nothing.mono fun ans b' h => ⟨h.sameRest.inStep hin,
      fun h' => absurd (hsid.symm.trans h') (by decide), fun _ => h,
      fun h' => absurd (hsid.symm.trans h') (by decide), fun _ h' => absurd hsid h'⟩
  · refine issues_readData.of_nothing.mono ?_
    rintro ans b' ⟨hdev, hupdate, hserver, -⟩
    refine ⟨hin.congr (congrArg Device.mem hdev) hupdate hserver.programming, .of_same ?_ ?_ ?_
      (.of_server hserver)⟩ <;> rw [hsid] <;> decide
  · refine (issues_routineControl hb hin hsid).mono fun ans b' h => ⟨h.1, .of_same ?_ ?_ ?_ h.2⟩ <;>
      rw [hsid] <;> decide
  · refine ((issues_requestDownload hin).weaken fun _ _ _ hc => .of_keeping hc).mono
      fun ans b' h => ⟨h.1, .of_same ?_ ?_ ?_ h.2⟩ <;> rw [hsid] <;> decide
  · refine (issues_transferData hin hsid).mono fun ans b' h => ⟨h.1, .of_same ?_ ?_ ?_ h.2⟩ <;>
      rw [hsid] <;> decide
  · refine ((issues_transferExit hin).weaken fun _ _ _ hc => .of_keeping hc).mono
      fun ans b' h => ⟨h.1, .of_same ?_ ?_ ?_ h.2⟩ <;> rw [hsid] <;> decide
  · refine issues_ecuReset.of_nothing.mono fun ans b' h => ⟨?_,
      fun h' => absurd (hsid.symm.trans h') (by decide),
      fun h' => absurd (hsid.symm.trans h') (by decide), fun _ => h, fun _ _ h' => absurd hsid h'⟩
    rcases h with ⟨-, rfl⟩ | ⟨-, -, -, rfl⟩
    · exact hin
    · exact hin.congr rfl rfl rfl
  · refine issues_testerPresent.of_nothing.mono ?_
    rintro ans b' rfl
    exact ⟨hin, .of_same h10 h27 h11 (.refl _)⟩
  · exact .pure ⟨hin, .of_same h10 h27 h11 (.refl b)⟩

/-- The response to a request with service identifier `sid`. -/
def respond (sid : Byte) : Answer → List Byte
  | .ok response => response
  | .error nrc => negative sid nrc

/-- `BootUds_ProcessRequest`, for any property of services. -/
theorem issues_processRequest {Q : Option (List Byte) → Board → Prop} (hdropped : Q none b)
    (h : Issues R (service (q.headD 0) q)
      (fun ans b' => Q (some (respond (q.headD 0) ans)) b') (refreshed b)) :
    Issues R (processRequest q) Q b := by
  unfold processRequest
  refine .ite (fun _ => .pure hdropped) fun _ => bind_setAccess.2 (h.bind ?_)
  rintro (nrc | response) b' hq
  · exact .pure hq
  · exact .pure hq

/-- A whole request, from any state in step with the journal. -/
theorem issues_request (hin : InStep b) :
    Issues (WriteAhead (SlotStates q)) (processRequest q) (fun r b' => InStep b' ∧
      ((r = none ∧ b' = b) ∨ ∃ ans, r = some (respond (q.headD 0) ans) ∧
        Gate q (refreshed b) ans b')) b := by
  refine issues_processRequest ⟨hin, .inl ⟨rfl, rfl⟩⟩ ?_
  refine (issues_service (refreshed_synced b) ((sameRest_refreshed b).inStep hin)).mono ?_
  rintro ans b' ⟨hin', hgate⟩
  exact ⟨hin', .inr ⟨ans, rfl, hgate⟩⟩

end BootUds

theorem Turn.inStep {b : Board} (e : Turn) (h : BootProgramming.InStep b) :
    BootProgramming.InStep (e.on b) :=
  h.congr rfl rfl rfl

namespace Reaches

open BootProgramming (InStep)
open BootUds (SlotStates)

variable {b₀ b : Board} {t : List Exchange}

/-- The context is in step with the journal in every state the server comes to. -/
theorem inStep (h : Reaches b₀ t b) : InStep b := by
  induction h with
  | start h =>
    cases h
    exact .of_clear rfl
  | request e _ hq ih => exact ((BootUds.issues_request (e.inStep ih)).of_done hq).1
  | tick e _ hb ih => exact ((BootUds.issues_mainFunction (e.inStep ih)).of_done hb).1

end Reaches

/-- Write-ahead discipline.  A boot writes to a slot only under a journal record for that slot in
    one of the states of recovery; a request only under one in the state of its service; the timer
    never does.  Without a storage fault the flags tell the state of the record. -/
theorem BootUds.write_ahead :
    (∀ b₀, Evolves (WriteAhead Recovering) b₀.dev (BootManager.run b₀).state.dev) ∧
    ∀ b₀ t b, Reaches b₀ t b →
      (∀ e : Turn,
        (∀ q, Evolves (WriteAhead (SlotStates q)) (e.on b).dev
          (processRequest q (e.on b)).state.dev) ∧
        Evolves (WriteAhead fun _ => False) (e.on b).dev (mainFunction (e.on b)).state.dev) ∧
      (b.ram.update.storageFault = false →
        (b.ram.programming.downloadActive = true →
          BootJournal.Current b.mem b.ram.update.current ∧
            b.ram.update.current.state = BootUpdateState.programming.code) ∧
        (b.ram.programming.eraseComplete = true → b.ram.programming.downloadActive = false →
          b.ram.programming.transferComplete = false →
          BootJournal.Current b.mem b.ram.update.current ∧
            b.ram.update.current.state = BootUpdateState.downloadReady.code) ∧
        (b.ram.programming.imageVerified = true →
          BootJournal.Current b.mem b.ram.update.current ∧
            b.ram.update.current.state = BootUpdateState.pendingActivation.code)) := by
  refine ⟨fun b₀ => BootManager.issues_run.evolves, fun b₀ t b hreach => ⟨fun e => ⟨fun q => ?_, ?_⟩,
    fun hfault => ?_⟩⟩
  · exact (issues_request (e.inStep hreach.inStep)).evolves
  · refine ((issues_mainFunction (e.inStep hreach.inStep)).weaken fun _ _ _ hc => ?_).evolves
    exact .of_keeping hc
  · have hin := hreach.inStep
    -- a flag in the context speaks for a journal, and no fault for its storage
    have hcan : BootProgramming.flagged b.ram.programming = true →
        BootUpdate.canContinue b.ram.update = true := by
      intro hflag
      simp [BootUpdate.canContinue, (hin.stored hflag).1, hfault]
    refine ⟨fun hd => ?_, fun he hd ht => ?_, fun hv => ?_⟩
    · have hflag : BootProgramming.flagged b.ram.programming = true := by
        simp [BootProgramming.flagged, hd]
      exact ⟨hin.current (hcan hflag) hflag, (hin.downloading (hcan hflag) hd).1⟩
    · have hflag : BootProgramming.flagged b.ram.programming = true := by
        simp [BootProgramming.flagged, he]
      exact ⟨hin.current (hcan hflag) hflag, (hin.erased (hcan hflag) he hd ht).1⟩
    · have hflag : BootProgramming.flagged b.ram.programming = true := by
        simp [BootProgramming.flagged, hv]
      exact ⟨hin.current (hcan hflag) hflag, hin.verified (hcan hflag) hv⟩
