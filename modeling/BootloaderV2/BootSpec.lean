import BootloaderV2.InitSpec
import BootloaderV2.Manager

/-!
# A boot as steps on the durable state

After recovery the boot manager confirms the running image if it is asked to, selects an image, and
counts an attempt before it jumps to an image on trial.
-/

open BootConfig NorFlash CrashM TwoCopy

theorem BootFlash.runs_init {R : View → View → Prop} {b : Board} :
    Runs R BootFlash.init (fun _ b' => ∃ f, f.ready = true ∧
      b' = { b with ram := { b.ram with flash := f } }) b := by
  unfold BootFlash.init FlashDriver.init FlashDriver.setWindow
  rw [Runs.bind_setFlash, Runs.bind_setFlash]
  refine Runs.bind (Q := fun ok b' => ok = true ∧ ∃ f,
    b' = { b with ram := { b.ram with flash := f } }) ?_ ?_
  · rw [Runs.bind_setFlash]
    refine .ite (fun h => absurd h (by decide)) fun _ => ?_
    rw [Runs.bind_setFlash]
    exact .pure ⟨rfl, _, rfl⟩
  · rintro ok b' - ⟨rfl, f, rfl⟩
    exact ⟨.refl _, _, rfl, rfl⟩

/-- The variables that a boot sets while it recovers are the same. -/
structure Board.Steady (b b' : Board) : Prop where
  flash : b'.ram.flash = b.ram.flash
  update : b'.ram.update = b.ram.update
  fault : b'.ram.lifecycle.storageFault = b.ram.lifecycle.storageFault
  reason : b'.ram.lifecycle.currentResetReason = b.ram.lifecycle.currentResetReason
  programming : b'.ram.programming = b.ram.programming
  security : b'.ram.security = b.ram.security
  hw : b'.hw = b.hw

/-- Nor has the flash changed or what the variables say of it. -/
structure Board.Alike (b b' : Board) : Prop extends b.Steady b' where
  dev : b'.dev = b.dev
  metadata : b'.ram.lifecycle.metadata = b.ram.lifecycle.metadata
  status : b'.ram.lifecycle.metadataStatus = b.ram.lifecycle.metadataStatus

namespace Board

variable {b b' b'' : Board} {j : BootUpdateJournal}

theorem Steady.refl (b : Board) : b.Steady b := ⟨rfl, rfl, rfl, rfl, rfl, rfl, rfl⟩

theorem Steady.trans (h : b.Steady b') (h' : b'.Steady b'') : b.Steady b'' :=
  ⟨h'.flash.trans h.flash, h'.update.trans h.update, h'.fault.trans h.fault,
    h'.reason.trans h.reason, h'.programming.trans h.programming, h'.security.trans h.security,
    h'.hw.trans h.hw⟩

theorem Steady.of_frame (h : BootLifecycle.Frame b b') (hupdate : b'.ram.update = b.ram.update)
    (hfault : b'.ram.lifecycle.storageFault = b.ram.lifecycle.storageFault) : b.Steady b' := by
  refine ⟨?_, hupdate, hfault, h.reason, ?_, ?_, h.hw⟩
  · rw [h.ram]
  · rw [h.ram]
  · rw [h.ram]

namespace Alike

theorem refl (b : Board) : b.Alike b := ⟨.refl b, rfl, rfl, rfl⟩

theorem trans (h : b.Alike b') (h' : b'.Alike b'') : b.Alike b'' :=
  ⟨h.toSteady.trans h'.toSteady, h'.dev.trans h.dev, h'.metadata.trans h.metadata,
    h'.status.trans h.status⟩

theorem view (h : b.Alike b') : b'.view = b.view := by
  unfold Board.view
  rw [h.dev]

theorem mem (h : b.Alike b') : b'.mem = b.mem := by
  unfold Board.mem
  rw [h.dev]

theorem mirror (h : b.Alike b') (hl : BootLifecycle.Mirror b) : BootLifecycle.Mirror b' :=
  hl.congr h.dev h.metadata h.status

end Alike

end Board

namespace BootLifecycle

variable {R : View → View → Prop} {b b' : Board} {s : Slot}

/-- Loading the metadata again changes nothing. -/
theorem Mirror.reloaded (h : Mirror b) : reloaded b.ram.lifecycle b.mem = b.ram.lifecycle := by
  have hm : (BootLifecycle.reloaded b.ram.lifecycle b.mem).metadata = b.ram.lifecycle.metadata := by
    funext s
    rw [reloaded_metadata]
    cases hl : BootMetadata.load s b.mem with
    | valid k r => exact ((h s).record r (BootMetadata.load_iff.1 ⟨k, hl⟩)).symm
    | empty => rfl
    | invalid => rfl
  have hs : (BootLifecycle.reloaded b.ram.lifecycle b.mem).metadataStatus =
      b.ram.lifecycle.metadataStatus := by
    funext s
    exact (BootMetadata.status_load s _).trans ((h s).status).symm
  have heq : ∀ l : State, ∀ m st, m = l.metadata → st = l.metadataStatus →
      ({ l with metadata := m, metadataStatus := st } : State) = l := by
    rintro l _ _ rfl rfl
    rfl
  exact heq _ _ _ hm hs

theorem Mirror.bind_reload {β : Type} {n : BootM β} {P : β → Board → Prop} (h : Mirror b) :
    Runs R (reload >>= fun _ => n) P b ↔ Runs R n P b := by
  rw [BootLifecycle.bind_reload, h.reloaded]

end BootLifecycle

/-- The records a boot writes after `r`: a trial begins, goes on or is confirmed. -/
inductive LaunchWrite (r : BootSlotMetadata) : BootSlotMetadata → Prop where
  | start (reason : BootResetReason) (h : r.state = BootImageState.pending.code) :
    LaunchWrite r
      (BootMetadata.stateRecord r .trial reason.code BootLifecycleResult.trialStarted.code)
  | retry (reason : BootResetReason) (h : r.state = BootImageState.trial.code)
    (ha : ¬ maxTrialAttempts ≤ r.bootAttempts) :
    LaunchWrite r (BootMetadata.attemptRecord r reason.code)
  | confirm (reason : BootResetReason) (h : r.state = BootImageState.trial.code) :
    LaunchWrite r
      (BootMetadata.stateRecord r .confirmed reason.code BootLifecycleResult.confirmed.code)

/-- One step of a boot that has recovered, where the journal record satisfies `P`. -/
inductive Launches (P : BootUpdateJournal → Prop) (d : Durable) : Durable → Prop where
  | write (j : BootUpdateJournal) (s : Slot) (r next : BootSlotMetadata)
    (hj : d.journal = .record j) (hp : P j) (hr : d.metadata s = .record r)
    (h : LaunchWrite r next) :
    Launches P d (d.setMetadata s (BootMetadata.completed s (r.sequence + 1) next))

namespace LaunchWrite

variable {r next : BootSlotMetadata}

theorem wellFormed (h : LaunchWrite r next) (hwf : BootMetadata.WellFormed r) :
    BootMetadata.WellFormed next := by
  cases h with
  | start reason _ => exact hwf.trialRecord reason
  | retry reason h ha => exact hwf.attemptRecord h ha reason
  | confirm reason _ => exact hwf.confirmRecord reason

theorem transitionAllowed (h : LaunchWrite r next) :
    BootMetadata.transitionAllowed r next = true := by
  cases h with
  | start reason h => simp [BootMetadata.transitionAllowed, BootMetadata.stateRecord, h,
      BootImageState.code]
  | retry reason h _ => simp [BootMetadata.transitionAllowed, BootMetadata.attemptRecord, h,
      BootImageState.code]
  | confirm reason h => simp [BootMetadata.transitionAllowed, BootMetadata.stateRecord, h,
      BootImageState.code]

theorem state (h : LaunchWrite r next) :
    next.state = BootImageState.trial.code ∨ next.state = BootImageState.confirmed.code := by
  cases h with
  | start => exact .inl rfl
  | retry _ h _ => exact .inl h
  | confirm => exact .inr rfl

theorem image (h : LaunchWrite r next) :
    next.imageVersion = r.imageVersion ∧ next.updateCounter = r.updateCounter := by
  cases h <;> exact ⟨rfl, rfl⟩

theorem not_confirmed (h : LaunchWrite r next) : r.state ≠ BootImageState.confirmed.code := by
  cases h with
  | start _ h => rw [h]; decide
  | retry _ h _ => rw [h]; decide
  | confirm _ h => rw [h]; decide

end LaunchWrite

/-- The steps of a boot keep the durable state consistent. -/
theorem Consistent.launches {P : BootUpdateJournal → Prop} {d d' : Durable} (h : Consistent d)
    (hv : d.Valid) (hP : ∀ j, P j → j.state = BootUpdateState.idle.code ∨
      j.state = BootUpdateState.aborted.code) (hd : Launches P d d') : Consistent d' := by
  cases hd with
  | write j s r next hj hp hr hw =>
    refine h.setMetadata_trial hv hj (hP j hp) hr hw.not_confirmed hw.image.1 hw.image.2 ?_
    exact hw.state.imp_right .inl

namespace BootLifecycle

variable {P : BootUpdateJournal → Prop} {b b' : Board} {j : BootUpdateJournal} {s : Slot}
  {r next : BootSlotMetadata} {o : Option BootSlotMetadata}

/-- How `BootLifecycle_PrepareBoot` ends. -/
inductive Prepared (b : Board) (s : Slot) (b' : Board) : Bool → Prop where
  | attempt (r next : BootSlotMetadata) (o : Option BootSlotMetadata)
    (hr : b.view.metadata s = .valid r o) (hw : LaunchWrite r next)
    (hst : next.state = BootImageState.trial.code)
    (hview : b'.view = b.view.setMetadata s
      (.valid (BootMetadata.completed s (r.sequence + 1) next) (some r))) : Prepared b s b' true
  | confirmed (r : BootSlotMetadata) (hr : b.view.Metadata s r)
    (hs : r.state = BootImageState.confirmed.code) (hdev : b'.dev = b.dev) : Prepared b s b' true
  | refused (hdev : b'.dev = b.dev) (h : ∀ r, b.view.Metadata s r →
      r.state ≠ BootImageState.pending.code ∧ r.state ≠ BootImageState.confirmed.code ∧
        (r.state = BootImageState.trial.code → maxTrialAttempts ≤ r.bootAttempts)) :
    Prepared b s b' false

/-- `BootLifecycle_PrepareBoot`, where the steps of a trial are among those of `S`. -/
theorem runs_prepareBoot {S : Durable → Durable → Prop} (hready : b.ram.flash.ready = true)
    (hf : b.dev.Faultless) (hl : Mirror b)
    (hstep : ∀ {r next : BootSlotMetadata}, b.view.Metadata s r → LaunchWrite r next →
      next.state = BootImageState.trial.code → S b.durable (b.durable.setMetadata s
        (BootMetadata.completed s (r.sequence + 1) next))) :
    Runs (Lift S) (prepareBoot s)
      (fun ok b' => Frame b b' ∧ b'.ram.update = b.ram.update ∧ Mirror b' ∧ Prepared b s b' ok)
      b := by
  -- a new record, and the variables read again
  have hattempt : ∀ {r next : BootSlotMetadata} {o : Option BootSlotMetadata} {b₁ : Board},
      b.view.metadata s = .valid r o → LaunchWrite r next →
      next.state = BootImageState.trial.code →
      Changed b b.ram (b.view.setMetadata s
        (.valid (BootMetadata.completed s (r.sequence + 1) next) (some r))) b₁ →
      Frame b (finished b₁) ∧ (finished b₁).ram.update = b.ram.update ∧ Mirror (finished b₁) ∧
        Prepared b s (finished b₁) true := by
    intro r next o b₁ hr hw hst hc
    refine ⟨(Frame.of_changed hc).finished, ?_, mirror_finished b₁, .attempt r next o hr hw hst hc.view⟩
    show b₁.ram.update = _
    rw [hc.ram]
  unfold prepareBoot
  rw [hl.bind_reload, Runs.bind_getRam]
  dsimp only
  refine .ite (fun hn => ?_) fun hv => ?_
  · exact .pure ⟨.refl b, rfl, hl,
      .refused rfl fun r hr => absurd ((hl s).status_valid.2 ⟨r, hr⟩) hn⟩
  obtain ⟨r, o, hr⟩ := (hl s).status_valid.1 (not_not.1 hv)
  have hwf := (View.durable_valid b.dev.mem).metadata s r (View.metadata_iff.2 ⟨o, hr⟩)
  rw [(hl s).record r ⟨o, hr⟩]
  refine .ite (fun hpend => ?_) fun hpend => .ite (fun htrial => ?_) fun htrial => ?_
  · have hw := LaunchWrite.start b.ram.lifecycle.currentResetReason hpend
    refine (BootMetadata.lifts_setState hready hf hr ?_ hw.transitionAllowed (hw.wellFormed hwf)
      (hstep ⟨o, hr⟩ hw rfl)).bind ?_
    · rw [hpend]
      decide
    rintro ok b₁ - ⟨rfl, hc⟩
    refine .ite (fun h => absurd h (by decide)) fun _ => ?_
    rw [bind_reload, bind_captureDiagnostics]
    exact .pure (b := finished b₁) (hattempt hr hw rfl hc)
  · by_cases ha : maxTrialAttempts ≤ r.bootAttempts
    · refine (BootMetadata.runs_call_refused (.incrementAttempt
        b.ram.lifecycle.currentResetReason.code) hready hr (if_pos (.inr ha))).bind ?_
      rintro ok b₁ - ⟨rfl, hb⟩
      rw [hb]
      refine .ite (fun _ => ?_) fun h => absurd rfl h
      rw [bind_setStorageFault]
      refine .pure ⟨(Frame.refl b).withLifecycle rfl, rfl, hl.congr rfl rfl rfl,
        .refused rfl fun r' hr' => ?_⟩
      obtain rfl := View.Metadata.unique hr' ⟨o, hr⟩
      rw [htrial]
      exact ⟨by decide, by decide, fun _ => ha⟩
    · have hw := LaunchWrite.retry b.ram.lifecycle.currentResetReason htrial ha
      refine (BootMetadata.lifts_call (.incrementAttempt b.ram.lifecycle.currentResetReason.code)
        hready hf hr ?_ (hw.wellFormed hwf) (hstep ⟨o, hr⟩ hw htrial)).bind ?_
      · refine (if_neg (not_or.2 ⟨fun h => h htrial, ha⟩)).trans ?_
        exact if_pos ⟨.inr hw.transitionAllowed, hw.wellFormed hwf⟩
      rintro ok b₁ - ⟨rfl, hc⟩
      refine .ite (fun h => absurd h (by decide)) fun _ => ?_
      rw [bind_reload, bind_captureDiagnostics]
      exact .pure (b := finished b₁) (hattempt hr hw htrial hc)
  · refine .ite (fun hconf => ?_) fun hconf => ?_
    · refine .pure ⟨.refl b, rfl, hl, .refused rfl fun r' hr' => ?_⟩
      obtain rfl := View.Metadata.unique hr' ⟨o, hr⟩
      exact ⟨hpend, hconf, fun h => absurd h htrial⟩
    · rw [bind_reload, bind_captureDiagnostics]
      exact .pure (b := finished b) ⟨(Frame.refl b).finished, rfl, mirror_finished b,
        .confirmed r ⟨o, hr⟩ (not_not.1 hconf) rfl⟩

theorem lifts_prepareBoot (hready : b.ram.flash.ready = true) (hf : b.dev.Faultless)
    (hl : Mirror b) (hj : b.view.Journal j) (hp : P j) :
    Runs (Lift (Launches P)) (prepareBoot s)
      (fun ok b' => Frame b b' ∧ b'.ram.update = b.ram.update ∧ Mirror b' ∧ Prepared b s b' ok)
      b :=
  runs_prepareBoot hready hf hl fun hr hw _ =>
    .write j s _ _ (View.journal_iff.2 hj) hp (View.metadata_iff.2 hr) hw

theorem runs_select {R : View → View → Prop} {x y : BootImageInfo} :
    Runs R (select x y) (fun target b' => target = selected b.ram.lifecycle x y ∧ ∃ w, b' =
      { b with ram := { b.ram with lifecycle := { b.ram.lifecycle with lastResult := w } } }) b := by
  unfold select
  rw [Runs.bind_getRam]
  dsimp only
  refine .ite (fun _ => ?_) fun _ => .pure ⟨rfl, b.ram.lifecycle.lastResult, rfl⟩
  rw [Runs.bind_setLifecycle]
  exact .pure ⟨rfl, _, rfl⟩

theorem targetOf_ne_programming (s : Slot) : targetOf s ≠ .programming := by
  cases s <;> decide

/-- What `BootLifecycle_Select` makes of the images as they are. -/
def choice (b : Board) : BootTarget :=
  selected b.ram.lifecycle (BootImage.loadInfo b.mem (some .a)) (BootImage.loadInfo b.mem (some .b))

/-- How `BootLifecycle_Confirm` ends. -/
inductive Confirmation (b : Board) (s : Slot) (b' : Board) : Bool → Prop where
  | written (r : BootSlotMetadata) (o : Option BootSlotMetadata)
    (hr : b.view.metadata s = .valid r o) (hs : r.state = BootImageState.trial.code)
    (hchoice : choice b = targetOf s)
    (hview : b'.view = b.view.setMetadata s (.valid (BootMetadata.completed s (r.sequence + 1)
      (BootMetadata.stateRecord r .confirmed b.ram.lifecycle.currentResetReason.code
        BootLifecycleResult.confirmed.code)) (some r))) : Confirmation b s b' true
  | already (r : BootSlotMetadata) (hr : b.view.Metadata s r)
    (hs : r.state = BootImageState.confirmed.code) (hdev : b'.dev = b.dev) :
    Confirmation b s b' true
  | refused (hdev : b'.dev = b.dev) (h : ∀ r, b.view.Metadata s r →
      r.state ≠ BootImageState.confirmed.code ∧
        (r.state = BootImageState.trial.code → choice b ≠ targetOf s)) :
    Confirmation b s b' false

theorem lifts_confirm (hready : b.ram.flash.ready = true) (hf : b.dev.Faultless)
    (hl : Mirror b)
    (hj : b.ram.lifecycle.storageFault = false → ∃ j, b.view.Journal j ∧ P j) :
    Runs (Lift (Launches P)) (confirm s)
      (fun ok b' => Frame b b' ∧ b'.ram.update = b.ram.update ∧ Mirror b' ∧
        b'.ram.lifecycle.storageFault = b.ram.lifecycle.storageFault ∧ Confirmation b s b' ok)
      b := by
  unfold confirm
  rw [hl.bind_reload, Runs.bind_getRam]
  dsimp only
  refine .ite (fun hn => ?_) fun hv => ?_
  · exact .pure ⟨.refl b, rfl, hl, rfl,
      .refused rfl fun r hr => absurd ((hl s).status_valid.2 ⟨r, hr⟩) hn⟩
  obtain ⟨r, o, hr⟩ := (hl s).status_valid.1 (not_not.1 hv)
  have hwf := (View.durable_valid b.dev.mem).metadata s r (View.metadata_iff.2 ⟨o, hr⟩)
  rw [(hl s).record r ⟨o, hr⟩]
  refine .ite (fun hconf => .pure ⟨.refl b, rfl, hl, rfl, .already r ⟨o, hr⟩ hconf rfl⟩)
    fun hconf => .ite (fun htrial => ?_) fun htrial => ?_
  · refine .pure ⟨.refl b, rfl, hl, rfl, .refused rfl fun r' hr' => ?_⟩
    obtain rfl := View.Metadata.unique hr' ⟨o, hr⟩
    exact ⟨hconf, fun h => absurd h htrial⟩
  · rw [Runs.bind_flash]
    refine runs_select.bind ?_
    rintro target b₁ - ⟨htarget, w, rfl⟩
    refine .ite (fun hne => ?_) fun he => ?_
    · refine .pure ⟨(Frame.refl b).withLifecycle rfl, rfl, hl.congr rfl rfl rfl, rfl,
        .refused rfl fun r' hr' => ⟨?_, fun _ => ?_⟩⟩
      · obtain rfl := View.Metadata.unique hr' ⟨o, hr⟩
        exact hconf
      · rw [htarget] at hne
        exact hne
    · have hchoice : choice b = targetOf s := htarget.symm.trans (not_not.1 he)
      have hfault : b.ram.lifecycle.storageFault = false := by
        by_contra hfault
        refine targetOf_ne_programming s (hchoice.symm.trans ?_)
        unfold choice selected
        rw [if_pos (by simpa using hfault)]
      obtain ⟨j, hj, hp⟩ := hj hfault
      have hw := LaunchWrite.confirm b.ram.lifecycle.currentResetReason (not_not.1 htrial)
      refine (BootMetadata.lifts_setState (b := { b with ram := { b.ram with
          lifecycle := { b.ram.lifecycle with lastResult := w } } }) hready hf hr hconf
        hw.transitionAllowed (hw.wellFormed hwf) (.write j s r _ (View.journal_iff.2 hj) hp
          (View.metadata_iff.2 ⟨o, hr⟩) hw)).bind ?_
      rintro ok b₂ - ⟨rfl, hc⟩
      refine .ite (fun h => absurd h (by decide)) fun _ => ?_
      rw [bind_reload, bind_captureDiagnostics]
      refine .pure (b := finished b₂) ⟨?_, ?_, mirror_finished b₂, ?_,
        .written r o hr (not_not.1 htrial) hchoice hc.view⟩
      · have hframe := (Frame.refl b).withLifecycle
          (l := { b.ram.lifecycle with lastResult := w }) rfl
        exact (hframe.trans (.of_changed hc)).finished
      · show b₂.ram.update = _
        rw [hc.ram]
      · rw [finished_fault, hc.ram]

end BootLifecycle

namespace BootManager

variable {b b' : Board} {j : BootUpdateJournal} {s t : Slot} {r : BootSlotMetadata}

/-- What `BootManager_Init` leaves. -/
structure Booted (b b' : Board) : Prop where
  ready : b'.ram.flash.ready = true
  mirror : BootLifecycle.Mirror b'
  started : ∃ ok, BootLifecycle.Started b' ok
  reason : b'.ram.lifecycle.currentResetReason = BootResetReason.capture b
  programming : b'.ram.programming = b.ram.programming
  security : b'.ram.security = b.ram.security
  retained : b'.retained = b.retained
  hw : b'.hw = b.hw

/-- `BootUpdate_LoadRecoveryState` and `BootLifecycle_Init`. -/
theorem lifts_recover {reason : BootResetReason} (hready : b.ram.flash.ready = true)
    (hf : b.dev.Faultless) (hamb : b.durable.Unhindered) :
    Runs (Lift Recovers)
      (BootUpdate.loadRecoveryState >>= fun _ => BootLifecycle.init reason)
      (fun ok b' => b'.ram.flash.ready = true ∧ BootLifecycle.Mirror b' ∧
        BootLifecycle.Started b' ok ∧ b'.ram.lifecycle.currentResetReason = reason ∧
        b'.ram.programming = b.ram.programming ∧ b'.ram.security = b.ram.security ∧
        b'.retained = b.retained ∧ b'.hw = b.hw) b := by
  refine (BootUpdate.lifts_loadRecoveryState hready hf).bind ?_
  rintro - b₁ htrail ⟨hframe₁, hready₁, hcase⟩
  refine (BootLifecycle.lifts_init (hcase.imp_left fun h => h.1) (htrail.faultless hf)
    (htrail.durable (fun _ _ hv hs => hs.unhindered hv) hamb)).mono ?_
  rintro ok b₂ - ⟨hframe₂, hl, hstarted⟩
  have hflash : b₂.ram.flash = b₁.ram.flash := by rw [hframe₂.ram]; rfl
  refine ⟨hflash ▸ hready₁, hl, hstarted, hframe₂.reason, ?_, ?_,
    hframe₂.retained.trans hframe₁.retained, hframe₂.hw.trans hframe₁.hw⟩
  · rw [hframe₂.ram]
    show b₁.ram.programming = _
    rw [hframe₁.ram]
  · rw [hframe₂.ram]
    show b₁.ram.security = _
    rw [hframe₁.ram]

theorem lifts_init (hf : b.dev.Faultless) (hamb : b.durable.Unhindered) :
    Runs (Lift Recovers) init (fun _ b' => Booted b b') b := by
  unfold init
  rw [Runs.bind_get]
  refine BootFlash.runs_init.bind ?_
  rintro - b₁ - ⟨f, hready, rfl⟩
  refine Runs.assoc.1 ((lifts_recover (b := { b with ram := { b.ram with flash := f } }) hready hf
    hamb).bind ?_)
  rintro ok b₂ - ⟨hready₂, hl, hstarted, hreason, hprog, hsec, hret, hhw⟩
  exact ⟨.refl _, hready₂, hl.congr rfl rfl rfl, ⟨ok, hstarted.congr rfl rfl rfl rfl rfl⟩,
    hreason, hprog, hsec, hret, hhw⟩

/-! ## After recovery -/

/-- The selection of `BootManager_SelectBootTarget`. -/
def target (b : Board) : BootTarget :=
  BootLifecycle.selected b.ram.lifecycle (scanned b.ram b.mem .a) (scanned b.ram b.mem .b)

/-- The board with the scanned images in the variables of the manager. -/
def scan (b : Board) : Board :=
  { b with ram := { b.ram with manager := { b.ram.manager with
      slotAInfo := scanned b.ram b.mem .a
      slotBInfo := scanned b.ram b.mem .b } } }

@[simp] theorem slotInfo_scan (b : Board) (s : Slot) :
    slotInfo (scan b).ram.manager s = scanned b.ram b.mem s := by
  cases s <;> rfl

variable {R : View → View → Prop}

theorem runs_selectBootTarget :
    Runs R selectBootTarget (fun tgt b' => tgt = target b ∧ b.Alike b' ∧
      b'.retained = b.retained ∧ b'.ram.manager = (scan b).ram.manager) b := by
  unfold selectBootTarget
  rw [Runs.bind_getRam, Runs.bind_flash]
  dsimp only
  rw [Runs.bind_setManager]
  refine BootLifecycle.runs_select.mono ?_
  rintro tgt b' - ⟨rfl, w, rfl⟩
  exact ⟨rfl, ⟨⟨rfl, rfl, rfl, rfl, rfl, rfl, rfl⟩, rfl, rfl, rfl⟩, rfl, rfl⟩

/-- The state of a slot as the selection takes it. -/
def stateOf (l : BootLifecycle.State) (s : Slot) : Word :=
  if l.metadataStatus s = .valid then (l.metadata s).state else BootImageState.empty.code

/-- The weight of a slot in the selection. -/
def priority (b : Board) (s : Slot) : Nat :=
  if (scanned b.ram b.mem s).valid then
    BootPolicy.lifecyclePriority (stateOf b.ram.lifecycle s)
  else 0

/-- The server is chosen where no slot weighs anything, and a slot otherwise. -/
theorem target_cases (b : Board) :
    (target b = .programming ∧
      (b.ram.lifecycle.storageFault = true ∨ ∀ s, priority b s = 0)) ∨
    ∃ s, target b = BootLifecycle.targetOf s ∧ b.ram.lifecycle.storageFault = false ∧
      0 < priority b s ∧ priority b s.other ≤ priority b s := by
  have hboth : ∀ {p : Slot → Prop}, p .a → p .b → ∀ s, p s := by
    intro p ha hb s
    cases s with
    | a => exact ha
    | b => exact hb
  have heq : target b = if b.ram.lifecycle.storageFault = true then .programming
      else if priority b .a ≠ 0 ∧ priority b .b = 0 then .slotA
      else if priority b .a = 0 ∧ priority b .b ≠ 0 then .slotB
      else if priority b .a = 0 ∧ priority b .b = 0 then .programming
      else if priority b .b < priority b .a then .slotA
      else if priority b .a < priority b .b then .slotB
      else if BootVersion.compare (scanned b.ram b.mem .a).header.softwareVersion
        (scanned b.ram b.mem .b).header.softwareVersion = .less then .slotB
      else .slotA := rfl
  rw [heq]
  split
  · exact .inl ⟨rfl, .inl ‹_›⟩
  rename_i hf
  have hf' : b.ram.lifecycle.storageFault = false := by simpa using hf
  have ha : ∀ {x : BootTarget}, x = .slotA → 0 < priority b .a → priority b .b ≤ priority b .a →
      ∃ s, x = BootLifecycle.targetOf s ∧ b.ram.lifecycle.storageFault = false ∧
        0 < priority b s ∧ priority b s.other ≤ priority b s :=
    fun hx h h' => ⟨.a, hx, hf', h, h'⟩
  have hb : ∀ {x : BootTarget}, x = .slotB → 0 < priority b .b → priority b .a ≤ priority b .b →
      ∃ s, x = BootLifecycle.targetOf s ∧ b.ram.lifecycle.storageFault = false ∧
        0 < priority b s ∧ priority b s.other ≤ priority b s :=
    fun hx h h' => ⟨.b, hx, hf', h, h'⟩
  split
  · exact .inr (ha rfl (by omega) (by omega))
  split
  · exact .inr (hb rfl (by omega) (by omega))
  split
  · rename_i h
    exact .inl ⟨rfl, .inr (hboth h.1 h.2)⟩
  split
  · exact .inr (ha rfl (by omega) (by omega))
  split
  · exact .inr (hb rfl (by omega) (by omega))
  split
  · exact .inr (hb rfl (by omega) (by omega))
  · exact .inr (ha rfl (by omega) (by omega))

theorem slotOfTarget_targetOf (s : Slot) : slotOfTarget (BootLifecycle.targetOf s) = some s := by
  cases s <;> rfl

/-- The selected slot weighs something, and no less than the other one. -/
theorem of_target (h : slotOfTarget (target b) = some s) :
    b.ram.lifecycle.storageFault = false ∧ 0 < priority b s ∧
      priority b s.other ≤ priority b s := by
  rcases target_cases b with ⟨hp, -⟩ | ⟨t, ht, hf, hpos, hle⟩
  · rw [hp] at h
    cases h
  · rw [ht, slotOfTarget_targetOf] at h
    obtain rfl := Option.some.inj h
    exact ⟨hf, hpos, hle⟩

/-- A slot that weighs something keeps the boot out of the server. -/
theorem exists_target (hf : b.ram.lifecycle.storageFault = false) (h : 0 < priority b s) :
    ∃ t, target b = BootLifecycle.targetOf t ∧ priority b s ≤ priority b t := by
  rcases target_cases b with ⟨-, hn | hn⟩ | ⟨t, ht, -, -, hle⟩
  · exact absurd (hf.symm.trans hn) (by decide)
  · exact absurd (hn s) (Nat.ne_of_gt h)
  · refine ⟨t, ht, ?_⟩
    by_cases hst : s = t
    · rw [hst]
    · rwa [Slot.eq_other_of_ne hst]

/-- The heavier slot is selected. -/
theorem target_of_lt (hf : b.ram.lifecycle.storageFault = false)
    (h : priority b s.other < priority b s) : target b = BootLifecycle.targetOf s := by
  obtain ⟨t, ht, hle⟩ := exists_target hf (s := s) (by omega)
  by_cases hst : t = s
  · rw [ht, hst]
  · rw [Slot.eq_other_of_ne hst] at hle
    omega

/-- What weighs something is bootable, and its image has been read. -/
theorem scanned_of_priority (h : 0 < priority b s) :
    BootUpdate.isSlotBootable b.ram.update s = true ∧
      BootLifecycle.isSlotBootable b.ram.lifecycle s = true ∧
      scanned b.ram b.mem s = BootImage.loadInfo b.mem (some s) ∧
      (BootImage.loadInfo b.mem (some s)).valid = true := by
  unfold priority at h
  split at h
  · rename_i hv
    unfold scanned at hv ⊢
    split at hv
    · rename_i hb
      rw [Bool.and_eq_true] at hb
      rw [if_pos (by rw [hb.1, hb.2]; rfl)]
      exact ⟨hb.1, hb.2, rfl, hv⟩
    · cases hv
  · omega

/-- The active slot that the server is told. -/
def activeOf (b : Board) (request : Bool) : SlotId := capturedSlot (scan b) (target b) request

/-- The version that the server takes for that of the active image. -/
def versionOf (b : Board) (active : SlotId) : Word :=
  match active with
  | some s =>
    if (scanned b.ram b.mem s).valid then (scanned b.ram b.mem s).header.softwareVersion else 0
  | none => 0

theorem runs_captureActiveSlot {request : Bool} :
    Runs R (captureActiveSlot request) (fun _ b' => b.Alike b' ∧ b'.retained = b.retained ∧
      b'.ram.manager.activeSlot = activeOf b request ∧
      b'.ram.manager.activeVersion = versionOf b (activeOf b request)) b := by
  unfold captureActiveSlot
  refine runs_selectBootTarget.bind ?_
  rintro tgt b₁ - ⟨rfl, halike, hret, hman⟩
  rw [Runs.bind_get]
  have hactive : capturedSlot b₁ (target b) request = activeOf b request := by
    unfold activeOf capturedSlot chosenSlot
    rw [halike.update, hret, hman]
    rfl
  have hinfo : ∀ s, slotInfo b₁.ram.manager s = scanned b.ram b.mem s := by
    intro s
    rw [hman, slotInfo_scan]
  dsimp only
  rw [hactive]
  refine ⟨.refl _, ⟨⟨halike.flash, halike.update, halike.fault, halike.reason, halike.programming,
    halike.security, halike.hw⟩, halike.dev, halike.metadata, halike.status⟩, hret, rfl, ?_⟩
  show (match activeOf b request with | some s => _ | none => _) = _
  unfold versionOf
  cases activeOf b request with
  | none => rfl
  | some s =>
    dsimp only
    rw [hinfo]

/-- The slot whose confirmation the running image asks for. -/
def confirmRequest (b : Board) : SlotId :=
  if BootRequest.retainedRequest b confirmMagic then BootRequest.getRequestedSlot b.retained
  else none

/-- The first half of CHECK_REQUEST, up to the active slot. -/
inductive Answered (b b' : Board) : Prop where
  | none (h : confirmRequest b = .none) (alike : b.Alike b')
  | confirm (s : Slot) (ok : Bool) (h : confirmRequest b = some s) (steady : b.Steady b')
    (hl : BootLifecycle.Mirror b') (hc : BootLifecycle.Confirmation b s b' ok)

/-- The application asks for the programming server. -/
def softwareRequested (b : Board) : Bool := BootRequest.retainedRequest b requestMagic

variable {P : BootUpdateJournal → Prop}

/-- State CHECK_REQUEST. -/
theorem lifts_checkRequest (hready : b.ram.flash.ready = true) (hf : b.dev.Faultless)
    (hl : BootLifecycle.Mirror b)
    (hj : b.ram.lifecycle.storageFault = false → ∃ j, b.view.Journal j ∧ P j) :
    Runs (Lift (Launches P)) checkRequest
      (fun request b' => request = (softwareRequested b || b.hw.requestPin) ∧
        ∃ b₂, Answered b b₂ ∧ b₂.Alike b' ∧
          b'.ram.manager.activeSlot = activeOf b₂ (softwareRequested b) ∧
          b'.ram.manager.activeVersion = versionOf b₂ (activeOf b₂ (softwareRequested b))) b := by
  have hcapture : ∀ b₂, Answered b b₂ →
      Runs (Lift (Launches P)) (captureActiveSlot (softwareRequested b) >>= fun _ =>
          if softwareRequested b = true then do
            BootRequest.clearSoftwareBootRequest
            return softwareRequested b || b.hw.requestPin
          else return softwareRequested b || b.hw.requestPin)
        (fun request b' => request = (softwareRequested b || b.hw.requestPin) ∧
          ∃ b₂, Answered b b₂ ∧ b₂.Alike b' ∧
            b'.ram.manager.activeSlot = activeOf b₂ (softwareRequested b) ∧
            b'.ram.manager.activeVersion = versionOf b₂ (activeOf b₂ (softwareRequested b))) b₂ := by
    intro b₂ hb₂
    refine runs_captureActiveSlot.bind ?_
    rintro - b₃ - ⟨halike, hret, hactive, hversion⟩
    refine .ite (fun _ => ?_) fun _ => .pure ⟨rfl, b₂, hb₂, halike, hactive, hversion⟩
    exact ⟨.refl _, rfl, b₂, hb₂, ⟨⟨halike.flash, halike.update, halike.fault, halike.reason,
      halike.programming, halike.security, halike.hw⟩, halike.dev, halike.metadata, halike.status⟩,
      hactive, hversion⟩
  unfold checkRequest
  rw [Runs.bind_get]
  dsimp only
  rw [show (if BootRequest.retainedRequest b confirmMagic = true then
    BootRequest.getRequestedSlot b.retained else none) = confirmRequest b from rfl]
  cases hc : confirmRequest b with
  | none => exact hcapture b (.none hc (.refl b))
  | some s =>
    refine (BootLifecycle.lifts_confirm hready hf hl hj).bind ?_
    rintro ok b₁ - ⟨hframe, hu, hl₁, hfault, hconf⟩
    unfold BootRequest.clearSoftwareBootRequest
    rw [Runs.bind_setRetained]
    refine hcapture _ (.confirm s ok hc ?_ (hl₁.congr rfl rfl rfl) ?_)
    · have h := Board.Steady.of_frame hframe hu hfault
      exact ⟨h.flash, h.update, h.fault, h.reason, h.programming, h.security, h.hw⟩
    · cases hconf with
      | written r o hr hs hchoice hview => exact .written r o hr hs hchoice hview
      | already r hr hs hdev => exact .already r hr hs hdev
      | refused hdev h => exact .refused hdev h

/-- How a boot that has recovered goes on and ends. -/
inductive Finished (b b' : Board) : BootExit → Prop where
  | programming (b₂ : Board) (answered : Answered b b₂) (alike : b₂.Alike b')
    (active : b'.ram.manager.activeSlot = activeOf b₂ (softwareRequested b))
    (version : b'.ram.manager.activeVersion = versionOf b₂ (activeOf b₂ (softwareRequested b)))
    (reason : (softwareRequested b || b.hw.requestPin) = true ∨ slotOfTarget (target b₂) = none) :
    Finished b b' .programming
  | reset (b₂ : Board) (s : Slot) (answered : Answered b b₂)
    (selected : slotOfTarget (target b₂) = some s) (hsw : b.hw.srs.sw = false)
    (hdev : b'.dev = b₂.dev) : Finished b b' .reset
  | error (b₂ : Board) (s : Slot) (ok : Bool) (answered : Answered b b₂)
    (selected : slotOfTarget (target b₂) = some s) (hsw : b.hw.srs.sw = true)
    (prepared : BootLifecycle.Prepared b₂ s b' ok) : Finished b b' .error
  | jumped (b₂ : Board) (s : Slot) (answered : Answered b b₂)
    (selected : slotOfTarget (target b₂) = some s) (hsw : b.hw.srs.sw = true)
    (request : (softwareRequested b || b.hw.requestPin) = false)
    (prepared : BootLifecycle.Prepared b₂ s b' true) : Finished b b' (.jumped s)

theorem target_congr (h : b.Alike b') : target b' = target b := by
  unfold target scanned BootUpdate.isSlotBootable BootLifecycle.isSlotBootable
    BootLifecycle.selected
  rw [h.update, h.fault, h.status, h.metadata, h.mem]

theorem Answered.mirror {b₂ : Board} (h : Answered b b₂) (hl : BootLifecycle.Mirror b) :
    BootLifecycle.Mirror b₂ := by
  cases h with
  | none _ halike => exact halike.mirror hl
  | confirm _ _ _ _ hl₂ _ => exact hl₂

theorem Answered.steady {b₂ : Board} (h : Answered b b₂) : b.Steady b₂ := by
  cases h with
  | none _ halike => exact halike.toSteady
  | confirm _ _ _ hs _ _ => exact hs

theorem Answered.journal {b₂ : Board} (h : Answered b b₂) : b₂.view.journal = b.view.journal := by
  cases h with
  | none _ halike => rw [halike.view]
  | confirm s ok _ _ _ hc =>
    cases hc with
    | written r o _ _ _ hview =>
      rw [hview]
      rfl
    | already _ _ _ hdev => rw [Board.view, hdev]; rfl
    | refused hdev _ => rw [Board.view, hdev]; rfl

/-- Where a slot is selected there is a journal. -/
theorem exists_journal {ok : Bool} (h : BootLifecycle.Started b ok)
    (hfault : b.ram.lifecycle.storageFault = false) : ∃ j, b.view.Journal j := by
  cases h with
  | done j hset _ _ => exact ⟨j, hset.mirror.journal⟩
  | noJournal _ hf => exact absurd (hf.symm.trans hfault) (by decide)
  | stuck j x hst => exact ⟨j, hst.rest.mirror.journal⟩
  | lost _ _ _ hf => exact absurd (hf.symm.trans hfault) (by decide)

theorem fault_of_selected (h : slotOfTarget (target b) = some s) :
    b.ram.lifecycle.storageFault = false := by
  by_contra hf
  have : target b = .programming := by
    unfold target BootLifecycle.selected
    rw [if_pos (by simpa using hf)]
  rw [this] at h
  cases h

theorem lifts_jumpApp {b₁ b₂ : Board} (hready : b.ram.flash.ready = true) (hf : b.dev.Faultless)
    (hl : BootLifecycle.Mirror b) (hj : b.view.Journal j) (hp : P j)
    (answered : Answered b₁ b₂) (halike : b₂.Alike b)
    (request : (softwareRequested b₁ || b₁.hw.requestPin) = false)
    (selected : slotOfTarget (target b₂) = some s) :
    Runs (Lift (Launches P)) (jumpApp s) (fun exit b' => Finished b₁ b' exit) b := by
  have hhw : b.hw = b₁.hw := halike.hw.trans answered.steady.hw
  have hview : b.view = b₂.view := halike.view
  have hprepared : ∀ {c : Board} {ok : Bool}, BootLifecycle.Prepared b s c ok →
      BootLifecycle.Prepared b₂ s c ok := by
    intro c ok h
    cases h with
    | attempt r next o hr hw hst hv =>
      rw [hview] at hr hv
      exact .attempt r next o hr hw hst hv
    | confirmed r hr hs hdev =>
      rw [hview] at hr
      exact .confirmed r hr hs (hdev.trans halike.dev)
    | refused hdev h =>
      rw [hview] at h
      exact .refused (hdev.trans halike.dev) h
  unfold jumpApp
  rw [Runs.bind_get]
  refine .ite (fun hsw => ?_) fun hsw => ?_
  · unfold BootResetReason.preserveForNormalization
    rw [Runs.bind_setRetained]
    rw [hhw] at hsw
    exact .pure (.reset b₂ s answered selected (by simpa using hsw) halike.dev)
  have hsw' : b₁.hw.srs.sw = true := by
    rw [hhw] at hsw
    simpa using hsw
  refine (BootLifecycle.lifts_prepareBoot hready hf hl hj hp).bind ?_
  rintro ok b₃ - ⟨-, -, hl₃, hprep⟩
  refine .ite (fun hok => ?_) fun hok => ?_
  · exact .pure (.error b₂ s ok answered selected hsw' (hprepared hprep))
  obtain rfl : ok = true := by simpa using hok
  unfold BootLifecycle.writeAppHandover
  refine Runs.bind (Q := fun _ b' => b'.dev = b₃.dev) ?_ ?_
  · rw [BootLifecycle.bind_reload, Runs.bind_getRam]
    exact ⟨.refl _, rfl⟩
  rintro - b₄ - hdev₄
  have hprep₄ : BootLifecycle.Prepared b₂ s b₄ true := by
    have hview₄ : b₄.view = b₃.view := by
      unfold Board.view
      rw [hdev₄]
    cases hprepared hprep with
    | attempt r next o hr hw hst hv => exact .attempt r next o hr hw hst (hview₄.trans hv)
    | confirmed r hr hs hdev => exact .confirmed r hr hs (hdev₄.trans hdev)
  unfold BootJump.toSlot
  rw [Runs.assoc, Runs.bind_getRam, Runs.assoc, Runs.bind_flash]
  refine Runs.bind (Q := fun _ b' => b' = b₄) (.pure rfl) ?_
  rintro ok b₅ - hb₅
  rw [hb₅]
  refine .ite (fun _ => .pure ?_) fun _ => .pure ?_
  · exact .jumped b₂ s answered selected hsw' request hprep₄
  · exact .error b₂ s true answered selected hsw' hprep₄

theorem runs_checkApp :
    Runs R checkApp (fun slot b' => slot = slotOfTarget (target b) ∧ b.Alike b' ∧
      b'.ram.manager.activeSlot = b.ram.manager.activeSlot ∧
      b'.ram.manager.activeVersion = b.ram.manager.activeVersion) b := by
  unfold checkApp
  refine runs_selectBootTarget.bind ?_
  rintro tgt b₁ - ⟨rfl, h, hret, hman⟩
  rw [Runs.bind_setManager]
  refine .pure ⟨rfl, ⟨⟨h.flash, h.update, h.fault, h.reason, h.programming, h.security, h.hw⟩,
    h.dev, h.metadata, h.status⟩, ?_, ?_⟩
  · show b₁.ram.manager.activeSlot = _
    rw [hman]
    rfl
  · show b₁.ram.manager.activeVersion = _
    rw [hman]
    rfl

/-- `BootManager_Run`. -/
theorem lifts_run (hf : b.dev.Faultless) (hamb : b.durable.Unhindered)
    (hP : ∀ b₁, Trail (Lift Recovers) b.dev b₁.dev → Booted b b₁ → ∀ j, b₁.view.Journal j → P j) :
    Runs (Lift fun d d' => Recovers d d' ∨ Launches P d d') run
      (fun exit b' => ∃ b₁, Trail (Lift Recovers) b.dev b₁.dev ∧ Booted b b₁ ∧
        Trail (Lift (Launches P)) b₁.dev b'.dev ∧ Finished b₁ b' exit) b := by
  -- what comes after recovery
  have hrest : ∀ b₁, Trail (Lift Recovers) b.dev b₁.dev → Booted b b₁ →
      Runs (Lift (Launches P)) (checkRequest >>= fun request =>
        if request = true then do
          BootM.setManager fun m => { m with selectedTarget := .programming }
          return .programming
        else do
          match ← checkApp with
          | some slot => jumpApp slot
          | none =>
            BootM.setManager fun m => { m with selectedTarget := .programming }
            return .programming)
        (fun exit b' => Finished b₁ b' exit) b₁ := by
    intro b₁ htrail hb₁
    obtain ⟨ok, hst⟩ := hb₁.started
    refine (lifts_checkRequest (P := P) hb₁.ready (htrail.faultless hf) hb₁.mirror
      fun hfault => ?_).bind ?_
    · obtain ⟨j, hj⟩ := exists_journal hst hfault
      exact ⟨j, hj, hP b₁ htrail hb₁ j hj⟩
    rintro request b₂ htrail₂ ⟨rfl, c, hans, halike, hactive, hversion⟩
    refine .ite (fun hreq => ?_) fun hreq => ?_
    · rw [Runs.bind_setManager]
      exact .pure (.programming c hans ⟨⟨halike.flash, halike.update, halike.fault, halike.reason,
        halike.programming, halike.security, halike.hw⟩, halike.dev, halike.metadata,
        halike.status⟩ hactive hversion (.inl hreq))
    · have hnone : (softwareRequested b₁ || b₁.hw.requestPin) = false := by simpa using hreq
      refine runs_checkApp.bind ?_
      rintro slot b₃ htrail₃ ⟨hslot, halike₃, hactive₃, hversion₃⟩
      have halike' := halike.trans halike₃
      rw [target_congr halike] at hslot
      cases slot with
      | none =>
        dsimp only
        rw [Runs.bind_setManager]
        exact .pure (.programming c hans ⟨⟨halike'.flash, halike'.update, halike'.fault,
          halike'.reason, halike'.programming, halike'.security, halike'.hw⟩, halike'.dev,
          halike'.metadata, halike'.status⟩ (hactive₃.trans hactive) (hversion₃.trans hversion)
          (.inr hslot.symm))
      | some s =>
        dsimp only
        have hsteady := hans.steady.trans halike'.toSteady
        have hjc : c.view.journal = b₃.view.journal := by rw [halike'.view]
        obtain ⟨j, o, hj⟩ := exists_journal hst
          (hans.steady.fault.symm.trans (fault_of_selected hslot.symm))
        have hj₃ : b₃.view.Journal j := ⟨o, by rw [← hjc, hans.journal, hj]⟩
        exact lifts_jumpApp (hsteady.flash ▸ hb₁.ready)
          (htrail₃.faultless (htrail₂.faultless (htrail.faultless hf)))
          (halike'.mirror (hans.mirror hb₁.mirror)) hj₃ (hP b₁ htrail hb₁ j ⟨o, hj⟩) hans halike'
          hnone hslot.symm
  unfold run
  refine ((lifts_init hf hamb).trail.lift_mono fun _ _ => .inl).bind ?_
  rintro - b₁ - ⟨htrail, hb₁⟩
  refine ((hrest b₁ htrail hb₁).trail.lift_mono fun _ _ => .inr).mono ?_
  rintro exit b' - ⟨ht, hfin⟩
  exact ⟨b₁, htrail, hb₁, ht, hfin⟩

end BootManager
