import BootloaderV2.CrashSafety
import BootloaderV2.Retained

/-!
# A boot that finds nothing to recover

What one uninterrupted start of the boot manager leaves is at rest: every start after it issues no
command, whatever its environment, and selects the same image.
-/

open BootConfig NorFlash CrashM TwoCopy

/-- Recovery finds nothing to do: a journal is at rest, a commissioned slot has the first record that
    it can have, and no exhausted trial is left. -/
structure Rested (v : View) : Prop where
  journal : ∀ j, v.Journal j → Resting j
  commissioned : ∀ j x, v.Journal j → j.state = BootUpdateState.aborted.code →
    j.lastResult = BootUpdateResult.commissioned.code → j.active = some x →
    v.metadata x = .empty → BootLifecycle.imageValid v.image x = false
  spent : ∀ j, v.Journal j → ∀ s r, v.Metadata s r → ¬ BootLifecycle.Exhausted r

/-- Recovery leaves nothing to do. -/
theorem BootLifecycle.Started.rested {b : Board} {ok : Bool} (h : BootLifecycle.Started b ok)
    (hl : BootLifecycle.Mirror b) (hc : Consistent b.durable) : Rested b.view := by
  have hsettled : ∀ {j}, BootLifecycle.Settled b j →
      (∀ s r, b.view.Metadata s r → ¬ BootLifecycle.Exhausted r) → Rested b.view := by
    intro j hset hspent
    have hunique : ∀ j', b.view.Journal j' → j' = j := fun j' hj' => by
      have := (View.journal_iff.2 hj').symm.trans (View.journal_iff.2 hset.mirror.journal)
      exact Register.Current.record.inj this
    refine ⟨fun j' hj' => ?_, fun j' x hj' => ?_, fun _ _ => hspent⟩
    · rw [hunique j' hj']
      exact hset.state
    · rw [hunique j' hj']
      exact fun ha hr hx he => hset.commissioned ha hr x hx he
  cases h with
  | done j hset _ hspent => exact hsettled hset hspent
  | noJournal hno _ =>
    exact ⟨fun j hj => absurd hj (hno.journal j), fun j x hj => absurd hj (hno.journal j),
      fun j hj => absurd hj (hno.journal j)⟩
  | stuck j x hst => exact absurd hc hst.not_consistent
  | lost j hset hstatus _ =>
    -- no slot has a record, so none has an exhausted trial
    refine hsettled hset fun s r hr => ?_
    have hvalid := (hl s).status_valid.2 ⟨r, hr⟩
    rw [hstatus s] at hvalid
    cases hvalid

/-- The journal variables of a boot that has read a journal at rest, or none. -/
def BootUpdate.Loaded (b : Board) : Prop :=
  BootUpdate.NoJournal b ∨ ∃ j, BootUpdate.Mirror b j ∧ Resting j

namespace Rested

variable {R : View → View → Prop} {b b' : Board}

theorem congr (h : Rested b.view) (hdev : b'.dev = b.dev) : Rested b'.view := by
  unfold Board.view
  rw [hdev]
  exact h

theorem runs_loadRecoveryState (hready : b.ram.flash.ready = true) (h : Rested b.view) :
    Runs R BootUpdate.loadRecoveryState (fun _ b' => b'.dev = b.dev ∧
      b'.ram.lifecycle = b.ram.lifecycle ∧ BootUpdate.Loaded b') b := by
  unfold BootUpdate.loadRecoveryState BootUpdate.recoverLoaded
  rw [Runs.bind_flash]
  cases hl : BootJournal.loadLatest b.mem with
  | valid k j =>
    dsimp only
    rw [Runs.bind_setUpdate, Runs.bind_getRam]
    have hj : b.view.Journal j := BootJournal.loadLatest_iff.1 ⟨k, hl⟩
    have hrest := h.journal j hj
    -- the journal is at rest, so nothing is recovered
    have haction : BootRecoveryPolicy.action true j.state = .normal := by
      rcases hrest with hst | hst
      · rw [hst]
        decide
      · rw [hst]
        decide
    dsimp only
    rw [haction]
    exact .pure ⟨rfl, rfl, .inr ⟨j, ⟨hready, rfl, rfl, rfl, hj⟩, hrest⟩⟩
  | empty =>
    dsimp only
    rw [Runs.bind_setUpdate, Runs.bind_getRam]
    have hno : ∀ j, ¬ b.view.Journal j := fun j hj => by
      obtain ⟨k, hk⟩ := BootJournal.loadLatest_iff.2 hj
      cases hl.symm.trans hk
    exact .pure ⟨rfl, rfl, .inl ⟨hno, rfl, rfl⟩⟩
  | invalid =>
    dsimp only
    rw [Runs.bind_setUpdate, Runs.bind_getRam]
    have hno : ∀ j, ¬ b.view.Journal j := fun j hj => by
      obtain ⟨k, hk⟩ := BootJournal.loadLatest_iff.2 hj
      cases hl.symm.trans hk
    exact .pure ⟨rfl, rfl, .inl ⟨hno, rfl, rfl⟩⟩

theorem runs_reconcileCommissioned {j : BootUpdateJournal} (h : Rested b.view)
    (hj : b.view.Journal j) (hst : j.state = BootUpdateState.aborted.code)
    (hres : j.lastResult = BootUpdateResult.commissioned.code) :
    Runs R (BootLifecycle.reconcileCommissioned j.active) (fun _ b' => b'.dev = b.dev) b := by
  unfold BootLifecycle.reconcileCommissioned
  cases hx : j.active with
  | none => exact .pure rfl
  | some x =>
    dsimp only
    rw [BootLifecycle.bind_reload, Runs.bind_flash, Runs.bind_getRam]
    have hl := BootLifecycle.mirror_reloaded b b.ram.lifecycle b.ram
    refine .ite (fun he => ?_) fun _ => .pure rfl
    have hempty := (hl x).status_empty.1 he.1
    have hvalid := (BootLifecycle.imageValid_view b x).symm.trans he.2
    have hinvalid := h.commissioned j x hj hst hres hx hempty
    exact absurd (hinvalid.symm.trans hvalid) (by decide)

theorem runs_reconcileJournal (hu : BootUpdate.Loaded b) (h : Rested b.view) :
    Runs R BootLifecycle.reconcileJournal (fun ok b' => b'.dev = b.dev ∧
      (ok = true → ∃ j, b.view.Journal j)) b := by
  unfold BootLifecycle.reconcileJournal
  rw [Runs.bind_getRam]
  rcases hu with hno | ⟨j, hm, hrest⟩
  · refine .ite (fun _ => ?_) fun hn => absurd (by simp [hno.valid]) hn
    rw [BootLifecycle.bind_setStorageFault]
    exact .pure ⟨rfl, fun hok => by cases hok⟩
  · refine .ite (fun hn => absurd hn (by simp [hm.valid, hm.fault])) fun _ => ?_
    rw [hm.current]
    have hpending : j.state ≠ BootUpdateState.pendingActivation.code := by
      rcases hrest with hst | hst
      · rw [hst]
        decide
      · rw [hst]
        decide
    refine .ite (fun hst => absurd hst hpending) fun _ => ?_
    refine .ite (fun hc => ?_) fun _ => .pure ⟨rfl, fun _ => ⟨j, hm.journal⟩⟩
    refine (h.runs_reconcileCommissioned hm.journal hc.1 hc.2).mono ?_
    intro ok b' _ hdev
    exact ⟨hdev, fun _ => ⟨j, hm.journal⟩⟩

theorem runs_resolveExhaustedTrial {s : Slot} (hl : BootLifecycle.Mirror b)
    (hs : ∀ s r, b.view.Metadata s r → ¬ BootLifecycle.Exhausted r) :
    Runs R (BootLifecycle.resolveExhaustedTrial s) (fun ok b' => ok = true ∧ b' = b) b := by
  unfold BootLifecycle.resolveExhaustedTrial
  rw [Runs.bind_flash, Runs.bind_getRam]
  refine .ite (fun hx => ?_) fun _ => .pure ⟨rfl, rfl⟩
  obtain ⟨r, hr⟩ := (hl s).status_valid.1 hx.1
  rw [(hl s).record r hr] at hx
  exact absurd hx.2 (hs s r hr)

/-- `BootLifecycle_Init` where nothing is left to do. -/
theorem runs_lifecycle {reason : BootResetReason} (hu : BootUpdate.Loaded b)
    (h : Rested b.view) :
    Runs R (BootLifecycle.init reason) (fun _ b' => b'.dev = b.dev) b := by
  unfold BootLifecycle.init
  rw [Runs.bind_setLifecycle]
  have hu' : BootUpdate.Loaded (BootLifecycle.entered b reason) := by
    rcases hu with hn | ⟨j, hm, hrest⟩
    · exact .inl (hn.congr rfl rfl)
    · exact .inr ⟨j, hm.congr rfl rfl rfl, hrest⟩
  apply (runs_reconcileJournal (b := BootLifecycle.entered b reason) hu' h).bind
  rintro ok b₁ _ ⟨hdev₁, hjournal⟩
  refine .ite (fun _ => ?_) fun hok => ?_
  · rw [BootLifecycle.bind_reload, BootLifecycle.bind_captureDiagnostics]
    exact .pure hdev₁
  rw [BootLifecycle.bind_reload, Runs.bind_getRam]
  refine .ite (fun _ => ?_) fun _ => ?_
  · rw [BootLifecycle.bind_setStorageFault, BootLifecycle.bind_captureDiagnostics]
    exact .pure hdev₁
  obtain ⟨j, hj⟩ := hjournal (by simpa using hok)
  have hl := BootLifecycle.mirror_reloaded b₁ b₁.ram.lifecycle b₁.ram
  have hspent : ∀ s r, b₁.view.Metadata s r → ¬ BootLifecycle.Exhausted r :=
    (h.congr hdev₁).spent j (by rw [Board.view, hdev₁]; exact hj)
  have htrials : Runs R BootLifecycle.resolveExhaustedTrials (fun ok b' => ok = true ∧
      b'.dev = b₁.dev) { b₁ with ram := { b₁.ram with
        lifecycle := BootLifecycle.reloaded b₁.ram.lifecycle b₁.mem } } := by
    unfold BootLifecycle.resolveExhaustedTrials
    apply (runs_resolveExhaustedTrial (s := .a) hl hspent).bind
    rintro ok b₂ _ ⟨hok₂, hb₂⟩
    refine .ite (fun hn => absurd hn (by simp [hok₂])) fun _ => ?_
    rw [hb₂]
    refine (runs_resolveExhaustedTrial (s := .b) hl hspent).mono ?_
    rintro ok b₃ _ ⟨hok₃, hb₃⟩
    exact ⟨hok₃, by rw [hb₃]⟩
  apply htrials.bind
  rintro ok b₂ _ ⟨hok₂, hdev₂⟩
  refine .ite (fun hn => absurd hn (by simp [hok₂])) fun _ => ?_
  rw [BootLifecycle.bind_reload, BootLifecycle.bind_captureDiagnostics]
  exact .pure (hdev₂.trans hdev₁)

/-- `BootManager_Init` where nothing is left to do. -/
theorem runs_init (h : Rested b.view) :
    Runs R BootManager.init (fun _ b' => b'.dev = b.dev) b := by
  unfold BootManager.init
  rw [Runs.bind_get]
  apply BootFlash.runs_init.bind
  rintro _ b₁ _ ⟨f, hready, hb₁⟩
  have hdev₁ : b₁.dev = b.dev := by rw [hb₁]
  have hready₁ : b₁.ram.flash.ready = true := by rw [hb₁, hready]
  apply ((h.congr hdev₁).runs_loadRecoveryState hready₁).bind
  rintro _ b₂ _ ⟨hdev₂, _, hloaded⟩
  apply (runs_lifecycle hloaded ((h.congr hdev₁).congr hdev₂)).bind
  intro _ b₃ _ hdev₃
  exact ⟨.refl _, hdev₃.trans (hdev₂.trans hdev₁)⟩

end Rested

/-! ## The selection of a boot that has recovered -/

namespace Recovered

variable {b b' : Board} {s : Slot}

/-- At rest the journal lets every slot boot, or the active one. -/
theorem slotBootable {j : BootUpdateJournal} (hm : BootUpdate.Mirror b j) (hj : Resting j) :
    BootUpdate.isSlotBootable b.ram.update s =
      (j.state == BootUpdateState.idle.code || s.code == j.activeSlot) := by
  unfold BootUpdate.isSlotBootable BootRecoveryPolicy.slotAllowed
  rw [hm.valid, hm.current, hm.fault]
  rcases hj with hst | hst
  · simp [hst]
  · have hstates : ¬ BootUpdateState.aborted.code = BootUpdateState.idle.code ∧
        ¬ BootUpdateState.aborted.code = BootUpdateState.pendingActivation.code := by decide
    rw [hst]
    by_cases hs : s.code = j.activeSlot
    · have hne : j.activeSlot ≠ j.targetSlot := fun he => hm.wellFormed.target_ne_active he.symm
      simp [hs, hne]
    · simp [hs, hstates]

theorem stateOf_eq (h : Recovered b) (h' : Recovered b') (hmem : b'.mem = b.mem) :
    BootManager.stateOf b'.ram.lifecycle s = BootManager.stateOf b.ram.lifecycle s := by
  have hview : b'.view = b.view := congrArg View.of hmem
  have hstatus : b'.ram.lifecycle.metadataStatus s = b.ram.lifecycle.metadataStatus s := by
    rw [(h'.lifecycle s).status, (h.lifecycle s).status, hview]
  unfold BootManager.stateOf
  rw [hstatus]
  by_cases hv : b.ram.lifecycle.metadataStatus s = .valid
  · obtain ⟨r, hr⟩ := (h.lifecycle s).status_valid.1 hv
    rw [(h.lifecycle s).record r hr, (h'.lifecycle s).record r (hview ▸ hr)]
  · rw [if_neg hv, if_neg hv]

/-- The lifecycle lets a slot boot whose state weighs something. -/
theorem lifecycleBootable (b : Board) (s : Slot) :
    BootLifecycle.isSlotBootable b.ram.lifecycle s = (!b.ram.lifecycle.storageFault &&
      BootPolicy.lifecyclePriority (BootManager.stateOf b.ram.lifecycle s) != 0) := by
  unfold BootLifecycle.isSlotBootable BootManager.stateOf
  by_cases hv : b.ram.lifecycle.metadataStatus s = .valid
  · rw [if_pos hv, hv]
    cases b.ram.lifecycle.storageFault <;> rfl
  · rw [if_neg hv, beq_eq_false_iff_ne.2 hv, Bool.and_false, Bool.false_and]
    exact (Bool.and_false _).symm

/-- Without a record the server is started. -/
theorem target_programming (h : Recovered b) (hn : ∀ s r, ¬ b.view.Metadata s r) :
    BootManager.target b = .programming := by
  rcases BootManager.target_cases b with ⟨ht, -⟩ | ⟨s, -, -, hpos, -⟩
  · exact ht
  · have hboot := (BootManager.scanned_of_priority hpos).2.1
    unfold BootLifecycle.isSlotBootable at hboot
    simp only [Bool.and_eq_true, beq_iff_eq] at hboot
    obtain ⟨r, hr⟩ := (h.lifecycle s).status_valid.1 hboot.1.2
    exact absurd hr (hn s r)

/-- What a boot selects is decided by the flash. -/
theorem target_eq (h : Recovered b) (h' : Recovered b') (hmem : b'.mem = b.mem) :
    BootManager.target b' = BootManager.target b := by
  have hview : b'.view = b.view := congrArg View.of hmem
  by_cases hn : ∀ s r, ¬ b.view.Metadata s r
  · rw [h.target_programming hn, h'.target_programming (hview ▸ hn)]
  · push Not at hn
    obtain ⟨x, r, hr⟩ := hn
    obtain ⟨hfault, j, hm, hj⟩ := h.exists_resting hr
    obtain ⟨hfault', j', hm', hj'⟩ := h'.exists_resting (hview ▸ hr : b'.view.Metadata x r)
    have hjj : j' = j := by
      have hboth := (View.journal_iff.2 hm'.journal).symm.trans
        (hview ▸ View.journal_iff.2 hm.journal)
      exact Register.Current.record.inj hboth
    have hscanned : ∀ s, BootManager.scanned b'.ram b'.mem s =
        BootManager.scanned b.ram b.mem s := by
      intro s
      unfold BootManager.scanned
      rw [slotBootable hm hj, slotBootable hm' hj', hjj, lifecycleBootable, lifecycleBootable,
        hfault, hfault', h.stateOf_eq h' hmem, hmem]
    have hstate : ∀ s, BootManager.stateOf b'.ram.lifecycle s =
        BootManager.stateOf b.ram.lifecycle s := fun s => h.stateOf_eq h' hmem
    show (if b'.ram.lifecycle.storageFault then BootTarget.programming
      else BootPolicy.selectLifecycle _ (BootManager.stateOf b'.ram.lifecycle .a) _
        (BootManager.stateOf b'.ram.lifecycle .b)) = _
    rw [hscanned, hscanned, hstate, hstate, hfault', ← hfault]
    rfl

end Recovered

theorem Trail.recovers {d d' : Device Note} (h : Trail (Lift Recovers) d d')
    (hc : Consistent (View.of d.mem).durable) : Consistent (View.of d'.mem).durable :=
  h.durable (fun _ _ hv hs hc => hc.recovers hv hs) hc

/-- A start that returns leaves a consistent state with nothing to do. -/
theorem Consistent.rested {d : Device Note} (h : Consistent (View.of d.mem).durable) {e : Turn}
    (he : e.Sound) {w : RetainedRecord} {b : Board}
    (hb : BootManager.init (e.restart w d) = .done () b) :
    Trail (Lift Recovers) (e.restart w d).dev b.dev ∧ BootManager.Booted (e.restart w d) b ∧
      Rested b.view ∧ Consistent b.durable := by
  have hc : Consistent (e.restart w d).durable := h
  have hruns := BootManager.lifts_init (he.restart w d) hc.unhindered
  obtain ⟨htrail, hbooted⟩ := hruns.of_done hb
  have hcons : Consistent b.durable := htrail.recovers hc
  obtain ⟨ok, hstarted⟩ := hbooted.started
  exact ⟨htrail, hbooted, hstarted.rested hbooted.mirror hcons, hcons⟩

/-- The power is cut before the first byte of the first command. -/
def Turn.severed : Turn := ⟨[.cut 0], .powerOn⟩

theorem Turn.sound_severed : Turn.severed.Sound := by
  intro n hn
  cases hn with
  | tail _ hn => cases hn

/-- A journal that is not at rest has the start do something. -/
theorem Consistent.severed {d : Device Note} (h : Consistent (View.of d.mem).durable)
    {j : BootUpdateJournal} (hj : BootJournal.Current d.mem j) (hst : ¬ Resting j)
    (w : RetainedRecord) :
    ∃ b, BootManager.init (Turn.severed.restart w d) = .cut b ∧ b.mem = d.mem := by
  refine BootManager.init_cut rfl fun b' hdone hmem => hst ?_
  obtain ⟨_, _, hrest, _⟩ := h.rested Turn.sound_severed hdone
  refine hrest.journal j (BootJournal.loadLatest_iff.1 ?_)
  rw [Board.mem] at hmem
  exact hmem ▸ hj

/-- A start of the boot manager that is not interrupted recovers all there is to recover: whatever
    has been asked of the device before, and wherever it has been interrupted, every start after it
    issues no command and selects the same image. -/
theorem Endures.recovery_idempotent {d : Device Note} (h : Endures (.reset d)) {e : Turn}
    (he : e.Sound) {w : RetainedRecord} {b : Board}
    (hb : BootManager.init (e.restart w d) = .done () b) (e' : Turn) (w' : RetainedRecord) :
    (BootManager.init (e'.restart w' b.dev)).state.mem = b.mem ∧
    (BootManager.init (e'.restart w' b.dev)).state.dev.log = b.dev.log ∧
    (e'.Sound → ∀ b', BootManager.init (e'.restart w' b.dev) = .done () b' →
      BootManager.target b' = BootManager.target b) := by
  obtain ⟨_, hbooted, hrest, hc⟩ := Consistent.rested h.sound he hb
  have hrec := hbooted.recovered hc
  have hagain : Rested (e'.restart w' b.dev).view := hrest
  -- no command is issued: a step under the empty relation would be one
  have hstill : (BootManager.init (e'.restart w' b.dev)).state.dev = (e'.restart w' b.dev).dev := by
    have hruns := hagain.runs_init (R := Lift fun _ _ => False)
    exact hruns.state_trail.eq_of_stuck fun _ hs => hs
  refine ⟨?_, ?_, fun he' b' hb' => ?_⟩
  · rw [Board.mem, hstill]
    rfl
  · rw [hstill]
    rfl
  · have hc' : Consistent (e'.restart w' b.dev).durable := hc
    obtain ⟨htrail, hbooted⟩ := (BootManager.lifts_init (he'.restart w' b.dev)
      hc'.unhindered).of_done hb'
    rw [hb'] at hstill
    have hmem : b'.mem = (e'.restart w' b.dev).mem := congrArg Device.mem hstill
    exact hrec.target_eq (hbooted.recovered (htrail.recovers hc')) hmem
