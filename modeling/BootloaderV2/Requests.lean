import BootloaderV2.Commission
import BootloaderV2.UdsSpec

/-!
# A request from its first byte to its answer

Whatever is asked, the server takes only server steps, and a session is left behind.  The active
slot of that session is another one only after the journal has been commissioned.
-/

open BootConfig NorFlash CrashM TwoCopy

/-- A session of some active slot. -/
def Hosted (b : Board) : Prop := ∃ act, Session act b

theorem Trail.consistent {act : SlotId} {d d' : Device Note} (h : Trail (Lift (Serves act)) d d')
    (hc : Consistent (View.of d.mem).durable) : Consistent (View.of d'.mem).durable :=
  h.durable (fun _ _ hv hs hc => hc.serves hv hs) hc

theorem Consistent.unhindered {d : Durable} (h : Consistent d) : d.Unhindered :=
  fun _ t _ _ _ => h.metadata t

namespace BootUpdate

variable {b : Board} {act : SlotId}

/-- What a commissioning leaves behind. -/
structure Commissioned (b b' : Board) : Prop where
  unset : ∀ j, ¬ b.view.Journal j
  rest : ∃ j, AtRest b' j ∧ j.state = BootUpdateState.aborted.code
  flash : b'.ram.flash = b.ram.flash
  lifecycle : b'.ram.lifecycle = b.ram.lifecycle
  programming : b'.ram.programming = b.ram.programming
  metadata : b'.view.metadata = b.view.metadata

theorem lifts_initializeJournal {active : SlotId} (h : Session act b) (hf : b.dev.Faultless)
    (hc : Consistent b.durable) :
    Runs (Lift (Serves act)) (initializeJournal active)
      (fun ok b' => (ok = false → b' = b) ∧ (ok = true → Commissioned b b')) b := by
  have hrefuse : Runs (Lift (Serves act)) (pure false)
      (fun ok b' => (ok = false → b' = b) ∧ (ok = true → Commissioned b b')) b :=
    .pure ⟨fun _ => rfl, fun hno => by cases hno⟩
  unfold initializeJournal
  rw [Runs.bind_flash]
  -- with a current record nothing is initialised
  by_cases hj : ∃ j, b.view.Journal j
  · obtain ⟨j, hj⟩ := hj
    obtain ⟨k, hk⟩ := BootJournal.loadLatest_iff.2 hj
    rw [show BootJournal.loadLatest b.mem = .valid k j from hk]
    exact hrefuse
  have hjournal : b.durable.journal = .unset := by
    cases hd : b.durable.journal with
    | unset => rfl
    | ambiguous => exact absurd hd hc.journal
    | record j => exact absurd ⟨j, View.journal_iff.1 hd⟩ hj
  have hunset : b.view.journal.Unset := Register.current_eq_unset.1 hjournal
  have hinit : Runs (Lift (Serves act))
      (initializeUnset b.mem active)
      (fun ok b' => (ok = false → b' = b) ∧ (ok = true → Commissioned b b')) b := by
    refine .ite (fun _ => hrefuse) fun hallowed => ?_
    have hstep : Serves act b.durable (b.durable.setJournal
        (BootJournal.completed 1 (commissionRecord active))) := by
      apply Serves.commission active hjournal
      rw [show b.durable.image = BootFlash.image b.mem from rfl, BootFlash.commissionAllowed_image]
      simpa using hallowed
    apply (BootJournal.lifts_initializeStore h.ready hf hunset
      (wellFormed_commissionRecord active) hstep).bind
    intro res b₁ _ ⟨hres, hchanged⟩
    rw [hres]
    dsimp only
    rw [Runs.bind_setUpdate]
    refine .pure ⟨fun hno => (by cases hno), fun _ => ⟨?_, ?_, ?_, ?_, ?_, ?_⟩⟩
    · exact fun j hj' => hj ⟨j, hj'⟩
    · refine ⟨BootJournal.completed 1 (commissionRecord active), ⟨⟨?_, rfl, rfl, rfl, ?_⟩,
        .inr (.inl rfl)⟩, rfl⟩
      · show b₁.ram.flash.ready = true
        rw [hchanged.ram]
        exact h.ready
      · refine ⟨none, ?_⟩
        show b₁.view.journal = _
        rw [hchanged.view]
    · show b₁.ram.flash = _
      rw [hchanged.ram]
    · show b₁.ram.lifecycle = _
      rw [hchanged.ram]
    · show b₁.ram.programming = _
      rw [hchanged.ram]
    · show b₁.view.metadata = _
      rw [hchanged.view]
  cases hl : BootJournal.loadLatest b.mem with
  | valid k j => exact absurd ⟨j, BootJournal.loadLatest_iff.1 ⟨k, hl⟩⟩ hj
  | empty => exact hinit
  | invalid => exact hinit

end BootUpdate

/-! ## Routine 0xFF02 -/

/-- A session goes on over a board whose journal is not running and that has recovered with a fault,
    or without a journal. -/
theorem Session.of_fault {b b' : Board} {act : SlotId} (h : Session act b) (hr : Recovered b')
    (hfault : b'.ram.lifecycle.storageFault = true)
    (hdown : b'.ram.programming.downloadActive = false)
    (hprog : b'.ram.programming = b.ram.programming) : Session act b' := by
  have hrun : ∀ j, b'.view.Journal j → ¬ Running j := by
    intro j hj
    rcases hr.update with ⟨hn, -⟩ | ⟨j', hm, hst⟩
    · exact absurd hj (hn.journal j)
    · obtain rfl := hm.journal.unique hj
      unfold Running
      rcases hst with hs | hs <;> rw [hs] <;> decide
  have hlate : ∀ j, b'.view.Journal j → ¬ (j.state = BootUpdateState.transferComplete.code ∨
      j.state = BootUpdateState.verifying.code) := by
    intro j hj hs
    apply hrun j hj
    unfold Running
    rcases hs with hs | hs <;> rw [hs] <;> decide
  refine ⟨⟨hr.ready, hr.lifecycle, ?_, ?_, ?_, hr.faulted, ?_, ?_, ?_, ?_⟩, ?_, ?_⟩
  · exact hr.update.imp (fun hn => hn.1) fun ⟨j, hm, _⟩ => ⟨j, hm⟩
  · rw [hprog, h.active]
  · rw [hprog, h.target]
  · intro j hj _ hcase
    rcases hcase with hf | hj'
    · exact absurd (hfault.symm.trans hf) (by decide)
    · exact absurd hj' (hrun j hj)
  · exact fun j hj hj' => absurd hj' (hrun j hj)
  · intro j s r _ _ hf
    exact absurd (hfault.symm.trans hf) (by decide)
  · exact fun j s hj hj' => absurd hj' (hrun j hj)
  · intro hd
    rw [hdown] at hd
    cases hd
  · exact fun j hj hs => absurd hs (hlate j hj)

namespace BootUds

variable {b : Board} {act : SlotId} {q : List Byte}

/-- How the server goes on: with the session it had, or with that of a commissioned journal. -/
def GoesOn (act : SlotId) (b b' : Board) : Prop :=
  Session act b' ∨ (∀ j, ¬ b.view.Journal j) ∧ Hosted b'

/-- The lifecycle that the server starts again recovers. -/
theorem serves_init {reason : BootResetReason} {j : BootUpdateJournal} (hj : BootUpdate.AtRest b j)
    (hf : b.dev.Faultless) (hamb : b.durable.Unhindered) :
    Runs (Lift (Serves act)) (BootLifecycle.init reason) (fun ok b' =>
      BootLifecycle.Frame (BootLifecycle.entered b reason) b' ∧ BootLifecycle.Mirror b' ∧
        BootLifecycle.Started b' ok) b :=
  (BootLifecycle.lifts_init (.inr ⟨j, hj⟩) hf hamb).lift_mono fun _ d hd => .recover d hd

/-- Routine 0xFF02. -/
theorem session_commission (h : Session act b) (hf : b.dev.Faultless)
    (hc : Consistent b.durable) :
    Runs (Lift (Serves act)) (commission q) (fun _ b' => GoesOn act b b') b := by
  unfold commission
  rw [Runs.bind_getRam]
  refine .ite (fun _ => .pure (.inl h)) fun _ => .ite (fun _ => .pure (.inl h)) fun _ =>
    .ite (fun _ => .pure (.inl h)) fun _ => ?_
  dsimp only
  refine .ite (fun _ => .pure (.inl h)) fun _ => ?_
  rw [BootIsoTp.bind_transmit]
  generalize hb₁ : ({ b with hw := _ } : Board) = b₁
  have h₁ : Session act b₁ := by
    rw [← hb₁]
    exact h.congr rfl rfl rfl rfl rfl rfl rfl id rfl
  have hf₁ : b₁.dev.Faultless := by
    rw [← hb₁]
    exact hf
  have hc₁ : Consistent b₁.durable := by
    rw [← hb₁]
    exact hc
  have hview₁ : b₁.view = b.view := by rw [← hb₁]; rfl
  refine .ite (fun _ => .pure (.inl h₁)) fun _ => ?_
  apply (BootUpdate.lifts_initializeJournal h₁ hf₁ hc₁).bind
  intro ok b₂ htrail₂ ⟨hno, hyes⟩
  cases ok with
  | false =>
    refine .ite (fun _ => .pure (.inl ?_)) fun hn => absurd rfl hn
    rw [hno rfl]
    exact h₁
  | true =>
    refine .ite (fun hn => absurd hn (by decide)) fun _ => ?_
    have hcom := hyes rfl
    have hunset : ∀ j, ¬ b.view.Journal j := hview₁ ▸ hcom.unset
    obtain ⟨j, hrest, -⟩ := hcom.rest
    have hc₂ : Consistent b₂.durable := htrail₂.consistent hc₁
    have hdown : b₁.ram.programming.downloadActive = false := by
      by_contra hd
      obtain ⟨j, hj, -⟩ := h₁.downloading (by simpa using hd)
      exact hcom.unset j hj
    apply (serves_init hrest (htrail₂.faultless hf₁) hc₂.unhindered).bind
    intro ok b₃ htrail₃ ⟨hframe, hl, hstarted⟩
    have hc₃ : Consistent b₃.durable := htrail₃.consistent hc₂
    have hflash : b₃.ram.flash = b₁.ram.flash := by
      rw [hframe.ram, ← hcom.flash]
      rfl
    have hprog : b₃.ram.programming = b₁.ram.programming := by
      rw [hframe.ram, ← hcom.programming]
      rfl
    have hready : b₃.ram.flash.ready = true := by rw [hflash, h₁.ready]
    have hrec : Recovered b₃ := .of_started hready hl hstarted hc₃
    cases ok with
    | false =>
      refine .ite (fun _ => .pure (.inl ?_)) fun hn => absurd rfl hn
      -- the lifecycle stops where the metadata of both slots are lost
      have hfault : b₃.ram.lifecycle.storageFault = true := by
        cases hstarted with
        | noJournal _ hfault => exact hfault
        | stuck j x hst => exact absurd hc₃ hst.not_consistent
        | lost _ _ _ hfault => exact hfault
      exact h₁.of_fault hrec hfault (by rw [hprog, hdown]) hprog
    | true =>
      refine .ite (fun hn => absurd hn (by decide)) fun _ => ?_
      apply BootManager.runs_captureActiveSlot.bind
      intro _ b₄ _ ⟨halike, _, hactive, hversion⟩
      rw [Runs.bind_getRam]
      unfold BootProgramming.init
      rw [Runs.bind_setProgramming, hactive, hversion]
      have hsession := @Session.of_recovered b₃ b₄ _ false b₄.ram.programming b₄.ram.security
        b₄.ram.uds hrec halike rfl
      apply runs_setAccess.bind
      intro _ b₅ _ hquiet
      exact .pure (.inr ⟨hunset, _, hquiet.session hsession⟩)

/-- The variables of the server itself are not those of the session. -/
theorem Session.setUds {b : Board} {act : SlotId} (h : Session act b) (u : BootUds.State) :
    Session act { b with ram := { b.ram with uds := u } } :=
  h.congr rfl rfl rfl rfl rfl rfl rfl id rfl

/-- Service 0x31. -/
theorem session_routineControl (h : Session act b) (hf : b.dev.Faultless)
    (hc : Consistent b.durable) :
    Runs (Lift (Serves act)) (routineControl q) (fun _ b' => GoesOn act b b') b := by
  unfold routineControl
  refine .ite (fun _ => .pure (.inl h)) fun _ => .ite (fun _ => .pure (.inl h)) fun _ => ?_
  dsimp only
  refine .ite (fun _ => ?_) fun _ => .ite (fun _ => ?_) fun _ => .ite (fun _ => ?_) fun _ =>
    .pure (.inl h)
  · refine .ite (fun _ => .pure (.inl h)) fun _ => ?_
    exact (BootProgramming.session_erase h hf).bind fun _ _ _ hs => .pure (.inl hs)
  · refine .ite (fun _ => .pure (.inl h)) fun _ => ?_
    exact (BootProgramming.session_verify h hf).bind fun _ _ _ hv => .pure (.inl hv.1)
  · exact (session_commission h hf hc).bind fun _ _ _ hg => .pure hg

/-- A request is answered by server steps only, and the server goes on. -/
theorem session_service {sid : Byte} (h : Session act b) (hf : b.dev.Faultless)
    (hc : Consistent b.durable) :
    Runs (Lift (Serves act)) (service sid q) (fun _ b' => GoesOn act b b') b := by
  have hquiet : ∀ {m : BootM Answer}, Runs (Lift (Serves act)) m (fun _ b' => Quiet b b') b →
      Runs (Lift (Serves act)) m (fun _ b' => GoesOn act b b') b :=
    fun hm => hm.mono fun _ _ _ hq => .inl (hq.session h)
  have hstays : ∀ {m : BootM Answer}, Runs (Lift (Serves act)) m (fun _ b' => Session act b') b →
      Runs (Lift (Serves act)) m (fun _ b' => GoesOn act b b') b :=
    fun hm => hm.mono fun _ _ _ hs => .inl hs
  unfold service
  refine .ite (fun _ => hstays (session_sessionControl h hf)) fun _ => ?_
  refine .ite (fun _ => hquiet runs_securityAccess) fun _ => ?_
  refine .ite (fun _ => ?_) fun _ => .ite (fun _ => session_routineControl h hf hc) fun _ => ?_
  · refine (runs_readData h.lifecycle).mono fun _ b' _ hb' => .inl ?_
    rw [hb']
    exact h
  refine .ite (fun _ => hstays ?_) fun _ => .ite (fun _ => hstays ?_) fun _ =>
    .ite (fun _ => hstays ?_) fun _ => .ite (fun _ => hstays ?_) fun _ =>
    .ite (fun _ => hstays ?_) fun _ => .pure (.inl h)
  · unfold requestDownload
    refine .ite (fun _ => .pure h) fun _ => .ite (fun _ => .pure h) fun _ => ?_
    apply (BootProgramming.session_download h hf).bind
    intro nrc b₁ _ h₁
    rw [Runs.bind_setUds, Runs.bind_getRam]
    exact .pure (Session.setUds h₁ _)
  · unfold transferData
    refine .ite (fun _ => .pure h) fun _ => ?_
    apply (BootProgramming.session_transfer h hf).bind
    intro nrc b₁ _ h₁
    refine .ite (fun _ => ?_) fun _ => .pure h₁
    rw [Runs.bind_setUds]
    exact .pure (Session.setUds h₁ _)
  · unfold transferExit
    refine .ite (fun _ => .pure h) fun _ => ?_
    exact (BootProgramming.session_exit h hf).bind fun _ _ _ hs => .pure hs
  · unfold ecuReset
    rw [Runs.bind_getRam]
    refine .ite (fun _ => .pure h) fun _ => .ite (fun _ => .pure h) fun _ =>
      .ite (fun _ => .pure h) fun _ => .ite (fun _ => .pure h) fun _ =>
      .ite (fun _ => .pure h) fun _ => ?_
    rw [Runs.bind_setUds]
    exact .pure (Session.setUds h _)
  · unfold testerPresent
    exact .ite (fun _ => .pure h) fun _ => .pure h

/-- `BootUds_ProcessRequest`. -/
theorem session_processRequest (h : Session act b) (hf : b.dev.Faultless)
    (hc : Consistent b.durable) :
    Runs (Lift (Serves act)) (processRequest q) (fun _ b' => GoesOn act b b') b := by
  unfold processRequest
  refine .ite (fun _ => .pure (.inl h)) fun _ => ?_
  dsimp only
  rw [Runs.bind_getRam]
  apply runs_setAccess.bind
  intro _ b₁ _ hq
  have hview : b₁.view = b.view := by
    unfold Board.view
    rw [hq.dev]
  have hc₁ : Consistent b₁.durable := by
    unfold Board.durable
    rw [hview]
    exact hc
  apply (session_service (hq.session h) (by rw [hq.dev]; exact hf) hc₁).bind
  intro a b₂ _ hg
  have hg' : GoesOn act b b₂ := hg.imp_right fun hn => ⟨hview ▸ hn.1, hn.2⟩
  cases a with
  | ok response => exact .pure hg'
  | error nrc => exact .pure hg'

/-! ## Commissioning -/

/-- The server of a device with flash `mem` has commissioned the slot. -/
structure Adopted (s : Slot) (mem : Nat → Byte) (b' : Board) : Prop where
  record : BootMetadata.Confirmed b'.mem s
  active : b'.ram.programming.activeSlot = some s
  info : BootImage.loadInfo b'.mem (some s) = BootImage.loadInfo mem (some s)
  update : b'.ram.update = BootLifecycle.commissionedUpdate s
  idle : b'.ram.programming.downloadActive = false

/-- Routine 0xFF02 with a slot, on erased records of a healthy device. -/
theorem ensures_commissioned {b : Board} {s : Slot} {q : List Byte} (hready : b.ram.flash.ready = true)
    (hd : b.dev.Healthy) (herased : RecordsErased b.mem)
    (himage : (BootImage.loadInfo b.mem (some s)).valid = true)
    (hformat : (BootImage.loadInfo b.mem (some s)).legacyFormat = false)
    (hlength : q.length = 5) (hchoice : q.getD 4 0 = BootUds.slotByte (some s))
    (hsession : b.ram.uds.session = 2) (hunlocked : b.ram.security.unlocked = true)
    (htransmit : b.hw.transmits.headD true = true) :
    Ensures (commission q) (fun _ => Adopted s b.mem) b := by
  generalize hb₀ : ({ b with hw := { b.hw with transmits := b.hw.transmits.tail } } : Board) = b₀
  have hmem : b₀.mem = b.mem := by rw [← hb₀]; rfl
  have hdev : b₀.dev = b.dev := by rw [← hb₀]
  have hram : b₀.ram = b.ram := by rw [← hb₀]
  obtain ⟨b₁, b₂, hcommission, hinit⟩ := commission_erased_done (b := b₀) (s := s)
    b.ram.lifecycle.currentResetReason (by rw [hram, hready]) (by rw [hdev]; exact hd.1)
    (by rw [hdev]; exact hd.2) (by rw [hmem]; exact herased) (by rw [hmem, himage])
  have hboot := (BootLifecycle.commission_bootable_iff hcommission hinit).2
    (.inr ⟨by rw [hmem]; exact herased.metadata s, by rw [hmem, hformat]⟩)
  obtain ⟨hu, himages, -, -⟩ := BootUpdate.ensures_initializeJournal.of_done hcommission rfl
  have hrestarted := (BootLifecycle.ensures_init hu).of_done hinit rfl
  have hinfo : BootImage.loadInfo b₂.mem (some s) = BootImage.loadInfo b.mem (some s) := by
    rw [hrestarted.images.loadInfo, himages.loadInfo, hmem]
  have hactive : BootManager.activeOf b₂ false = some s := by
    obtain ⟨c, hc⟩ := hboot.target
    have htarget := ((Ensures.of_runs (R := fun _ _ => True)
      BootManager.runs_selectBootTarget).of_done hc).1
    unfold BootManager.activeOf BootManager.capturedSlot BootManager.chosenSlot
    rw [← htarget, BootManager.slotOfTarget_targetOf]
    cases BootRequest.getRequestedSlot (BootManager.scan b₂).retained with
    | none => rfl
    | some x => rfl
  unfold commission
  refine .step (m := BootM.getRam) rfl ?_
  refine .ite (fun hn => absurd hlength hn) fun _ => .ite (fun hn => absurd hsession hn) fun _ =>
    .ite (fun hn => absurd hn (by simp [hunlocked])) fun _ => ?_
  dsimp only
  rw [hchoice]
  refine .ite (fun hn => absurd hn (by cases s <;> decide)) fun _ => ?_
  have hslot : (if BootUds.slotByte (some s) = 0xFF then none else
      if BootUds.slotByte (some s) = 0 then some Slot.a else some .b) = some s := by
    cases s <;> decide
  rw [hslot]
  have hsent : BootIsoTp.transmit b = .done true b₀ := by
    rw [← hb₀, ← htransmit]
    rfl
  refine .step hsent ?_
  refine .ite (fun hn => absurd hn (by decide)) fun _ => ?_
  refine .step hcommission (.ite (fun hn => absurd hn (by decide)) fun _ => ?_)
  refine .step hinit (.ite (fun hn => absurd hn (by decide)) fun _ => ?_)
  refine (Ensures.of_runs (R := fun _ _ => True) BootManager.runs_captureActiveSlot).bind ?_
  rintro - b₃ ⟨halike, -, hman, -⟩
  refine .step (m := BootM.getRam) rfl ?_
  have hmem₃ : b₃.mem = b₂.mem := by rw [Board.mem, halike.dev, ← Board.mem]
  refine .pure ⟨?_, hman.trans hactive, ?_, halike.update.trans (hrestarted.update.trans hu), rfl⟩
  · show BootMetadata.Confirmed b₃.mem s
    rw [hmem₃]
    exact hboot.metadata
  · show BootImage.loadInfo b₃.mem _ = _
    rw [hmem₃, hinfo]

/-- The request of routine 0xFF02. -/
theorem ensures_commission_request {b : Board} {q : List Byte} {P : Board → Prop}
    (hlength : q.length = 5) (hsid : q.headD 0 = 0x31) (hstart : q.getD 1 0 = 1)
    (hhigh : q.getD 2 0 = 0xFF) (hlow : q.getD 3 0 = 2)
    (h : ∀ b₁ : Board, b₁.dev = b.dev → b₁.hw = b.hw → b₁.ram.flash = b.ram.flash →
      b₁.ram.uds = b.ram.uds → b₁.ram.security = b.ram.security →
      Ensures (commission q) (fun _ b' => P b') b₁) :
    Ensures (processRequest q) (fun _ b' => P b') b := by
  have hservice : service 0x31 q = routineControl q := by
    unfold service
    rw [if_neg (by decide), if_neg (by decide), if_neg (by decide), if_pos rfl]
  have hroutine : (q.getD 2 0).toNat * 256 + (q.getD 3 0).toNat = routineCommission := by
    rw [hhigh, hlow]
    decide
  unfold processRequest
  rw [if_neg (by rw [hlength]; decide), hsid]
  dsimp only
  rw [hservice]
  obtain ⟨b₁, hset, hdev, hhw, hflash, huds, hsecurity⟩ : ∃ b₁ : Board,
      BootProgramming.setAccess (b.ram.uds.session == 2) b.ram.security.unlocked b = .done () b₁ ∧
      b₁.dev = b.dev ∧ b₁.hw = b.hw ∧ b₁.ram.flash = b.ram.flash ∧ b₁.ram.uds = b.ram.uds ∧
      b₁.ram.security = b.ram.security := ⟨_, rfl, rfl, rfl, rfl, rfl, rfl⟩
  refine .step (m := BootM.getRam) rfl (.step hset ?_)
  have hrun : Ensures (routineControl q) (fun _ b' => P b') b₁ := by
    unfold routineControl
    rw [if_neg (by rw [hlength]; decide), if_neg (fun hn => hn hstart), hroutine]
    dsimp only
    rw [if_neg (by decide), if_neg (by decide), if_pos rfl]
    exact (h b₁ hdev hhw hflash huds hsecurity).bind fun _ _ hr => .pure hr
  refine hrun.bind fun r b' hr => ?_
  cases r with
  | ok _ => exact .pure hr
  | error _ => exact .pure hr

end BootUds
