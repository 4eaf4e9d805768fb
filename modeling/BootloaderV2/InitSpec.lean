import BootloaderV2.LifecycleSpec

/-!
# `BootLifecycle_Init`

The journal is reconciled with the metadata, trials without an attempt left are ended, and what
remains needs no further step.
-/

open BootConfig NorFlash CrashM TwoCopy

namespace BootLifecycle

variable {b b' : Board} {j : BootUpdateJournal} {s t x : Slot} {r : BootSlotMetadata}

/-- The first record of a slot that runs already. -/
theorem lifts_initializeConfirmed {counter : Word} (hready : b.ram.flash.ready = true)
    (hf : b.dev.Faultless) (hu : b.view.metadata s = .empty)
    (hS : Recovers b.durable (b.durable.setMetadata s (BootMetadata.completed s 1
      (confirmedRecord s (b.durable.version s) counter
        b.ram.lifecycle.currentResetReason.code)))) :
    Runs (Lift Recovers) (initializeConfirmed s (BootImage.loadInfo b.mem (some s)) counter)
      (fun ok b' => ok = true ∧ Changed b b.ram (b.view.setMetadata s
        (.valid (BootMetadata.completed s 1 (confirmedRecord s (b.durable.version s) counter
          b.ram.lifecycle.currentResetReason.code)) none)) b') b := by
  unfold initializeConfirmed
  rw [Runs.bind_getRam, version_view]
  refine (BootMetadata.lifts_initializeStore hready hf (.inl hu) rfl
    (BootMetadata.wellFormed_confirmedRecord s _ _ _) hS).bind ?_
  rintro res b' - ⟨hres, hc⟩
  exact .ite (fun _ => .pure ⟨rfl, hc⟩) fun h => absurd hres h

theorem MirrorSlot.of_metadata {ram : Ram} {g : Register BootSlotMetadata} (h : MirrorSlot b t)
    (hc : Changed b ram (b.view.setMetadata s g) b') (hram : ram.lifecycle = b.ram.lifecycle)
    (ht : t ≠ s) : MirrorSlot b' t := by
  have hview : b'.view.metadata t = b.view.metadata t := by
    rw [hc.view, View.setMetadata_other ht]
  refine ⟨by rw [hc.ram, hram, hview, h.status], fun r hr => ?_⟩
  rw [hc.ram, hram]
  exact h.record r (by rwa [View.Metadata, ← hview])

theorem loadInfo_of_image (h : b'.view.image = b.view.image) (s : SlotId) :
    BootImage.loadInfo b'.mem s = BootImage.loadInfo b.mem s := by
  have hi := BootFlash.loadInfo_image b'.mem s
  rw [show BootFlash.image b'.mem = BootFlash.image b.mem from h] at hi
  rw [← hi, BootFlash.loadInfo_image]

/-- The journal is at rest, and a commissioned slot has its first record if it can have one. -/
structure Settled (b : Board) (j : BootUpdateJournal) : Prop where
  mirror : BootUpdate.Mirror b j
  state : j.state = BootUpdateState.idle.code ∨ j.state = BootUpdateState.aborted.code
  commissioned : j.state = BootUpdateState.aborted.code →
    j.lastResult = BootUpdateResult.commissioned.code → ∀ x, j.active = some x →
      b.view.metadata x = .empty → imageValid b.durable.image x = false

/-- The slot a verified transaction would fall back to is not one to fall back to. -/
structure Stuck (b : Board) (j : BootUpdateJournal) (x : Slot) : Prop where
  rest : BootUpdate.AtRest b j
  state : j.state = BootUpdateState.pendingActivation.code
  active : j.active = some x
  fallback : imageValid b.durable.image x = false ∨ (b.view.metadata x ≠ .empty ∧
    ∀ r, b.view.Metadata x r → r.state ≠ BootImageState.confirmed.code)

/-- What `reconcile_journal` leaves. -/
def Reconciled (b b' : Board) : Bool → Prop
  | true => (∃ j, Settled b' j) ∧
      b'.ram.lifecycle.storageFault = b.ram.lifecycle.storageFault
  | false => b'.dev = b.dev ∧ b'.ram.update = b.ram.update ∧
      (BootUpdate.NoJournal b ∧ b'.ram.lifecycle.storageFault = true ∨ ∃ j x, Stuck b j x)

/-- A transaction that is handed over leaves the journal settled. -/
theorem HandedOver.reconciled (h : HandedOver b j t b') : Reconciled b b' true := by
  refine ⟨⟨_, h.mirror, .inl rfl, fun hs => absurd hs ?_⟩, by rw [h.lifecycle]⟩
  show ¬ BootUpdateState.idle.code = BootUpdateState.aborted.code
  decide

/-- What the check of the active slot leaves. -/
def ActiveConfirmed (b : Board) (j : BootUpdateJournal) (t x : Slot) (b' : Board) : Bool → Prop
  | true => BootUpdate.Mirror b' j ∧ MirrorSlot b' t ∧
      b'.view.metadata t = b.view.metadata t ∧ b'.view.image = b.view.image ∧ Deliverable b'.durable j t ∧
      b'.ram.lifecycle.storageFault = b.ram.lifecycle.storageFault
  | false => b'.dev = b.dev ∧ b'.ram.update = b.ram.update ∧
      (imageValid b.durable.image x = false ∨ (b.view.metadata x ≠ .empty ∧
        ∀ r, b.view.Metadata x r → r.state ≠ BootImageState.confirmed.code))

theorem lifts_confirmActive (hu : BootUpdate.Mirror b j) (hl : Mirror b) (hf : b.dev.Faultless)
    (hst : j.state = BootUpdateState.pendingActivation.code) (hacc : b.durable.Accepts j)
    (hpub : b.durable.Publishes j) (ht : j.target = some t) (hx : j.active = some x) :
    Runs (Lift Recovers) (confirmActive x)
      (fun ok b' => Frame b b' ∧ ActiveConfirmed b j t x b' ok) b := by
  have htx : t ≠ x := by
    rw [hu.wellFormed.active_ne_target hx ht]
    exact t.ne_other
  -- the transaction is deliverable once the active slot has a confirmed record
  have hdeliver : ∀ d : Durable, d.journal = .record j → d.Accepts j → d.Publishes j →
      imageValid d.image x = true →
      (∃ r, d.metadata x = .record r ∧ r.state = BootImageState.confirmed.code) →
      Deliverable d j t := by
    intro d hj ha hp hi hr
    refine ⟨hj, hst, ht, ha, hp, fun y hy => ?_⟩
    obtain rfl := Option.some.inj (hx.symm.trans hy)
    exact ⟨hi, hr⟩
  unfold confirmActive
  rw [Runs.bind_flash, imageValid_view]
  refine .ite (fun hi => .pure ⟨.refl b, rfl, rfl, .inl (by simpa using hi)⟩) fun hi => ?_
  have hix : imageValid b.durable.image x = true := by simpa using hi
  rw [Runs.bind_getRam]
  dsimp only
  refine .ite (fun he => ?_) fun he => .ite (fun hn => ?_) fun hn => ?_
  · have hempty := (hl x).status_empty.1 he
    obtain rfl := hu.current
    refine (lifts_initializeConfirmed hu.ready hf hempty (.first x _
      (Register.current_eq_unset.2 (.inl hempty))
      (.commission _ _ hu.durable (.inl ⟨hst, hacc, hpub⟩) hx hix))).mono ?_
    rintro ok b' - ⟨rfl, hc⟩
    have hd : b'.durable = b.durable.setMetadata x _ :=
      hc.durable.trans (View.durable_setMetadata rfl)
    refine ⟨.of_changed hc, hu.of_metadata hc, (hl t).of_metadata hc rfl htx,
      by rw [hc.view, View.setMetadata_other htx], by rw [hc.view]; rfl, ?_, by rw [hc.ram]⟩
    rw [hd]
    exact hdeliver _ hu.durable hacc hpub hix ⟨_, Durable.setMetadata_self, rfl⟩
  · rw [bind_setStorageFault]
    refine .pure ⟨⟨rfl, rfl, rfl, rfl⟩, rfl, rfl, .inr ⟨?_, ?_⟩⟩
    · exact fun h => he ((hl x).status_empty.2 h)
    · intro r hr hs
      refine hn.elim (fun h => h ((hl x).status_valid.2 ⟨r, hr⟩)) fun h => h ?_
      rw [(hl x).record r hr, hs]
  · push Not at hn
    obtain ⟨r, hr⟩ := (hl x).status_valid.1 hn.1
    rw [(hl x).record r hr] at hn
    refine .pure ⟨.refl b, hu, hl t, rfl, rfl, ?_, rfl⟩
    exact hdeliver _ hu.durable hacc hpub hix ⟨r, View.metadata_iff.2 hr, hn.2⟩

/-- `reconcile_journal` on a transaction that is ready to be handed over. -/
theorem lifts_reconcilePending (hrest : BootUpdate.AtRest b j) (hf : b.dev.Faultless)
    (hamb : b.durable.Unhindered) (hst : j.state = BootUpdateState.pendingActivation.code) :
    Runs (Lift Recovers) (reconcilePending j.active j.target)
      (fun ok b' => Frame b b' ∧ Reconciled b b' ok) b := by
  obtain ⟨t, ht⟩ := hrest.mirror.wellFormed.exists_target
  obtain ⟨hacc, hpub⟩ : b.durable.Accepts j ∧ b.durable.Publishes j := by
    rcases hrest.state with hs | hs | ⟨-, ha, hp, -⟩
    · exact absurd (hs.symm.trans hst) (by decide)
    · exact absurd (hs.symm.trans hst) (by decide)
    · exact ⟨ha, hp⟩
  unfold reconcilePending
  rw [Runs.bind_flash, ht]
  dsimp only
  rw [imageValid_view, (hpub.imageValid ht).1]
  refine .ite (fun h => absurd h (by decide)) fun _ => ?_
  rw [bind_reload]
  -- from here on the variables of the lifecycle agree with the flash
  have hl := mirror_reloaded b b.ram.lifecycle b.ram
  have hm := hrest.mirror.withRam
    (m := { b.ram with lifecycle := reloaded b.ram.lifecycle b.mem }) rfl hrest.mirror.valid
    hrest.mirror.fault hrest.mirror.current
  have hframe : Frame b { b with ram := { b.ram with
      lifecycle := reloaded b.ram.lifecycle b.mem } } := ⟨rfl, rfl, rfl, rfl⟩
  cases hx : j.active with
  | none =>
    have hd : Deliverable b.durable j t :=
      ⟨hm.durable, hst, ht, hacc, hpub, fun x hx' => absurd (hx.symm.trans hx') (by simp)⟩
    refine (lifts_handOver hm (hl t) hf hd (hamb.register hm.durable ht
      fun x hx' => absurd (hx.symm.trans hx') (by simp))).mono ?_
    rintro ok b' - ⟨rfl, hh⟩
    exact ⟨hframe.trans hh.frame, hh.reconciled⟩
  | some x =>
    refine (lifts_confirmActive hm hl hf hst hacc hpub ht hx).bind ?_
    rintro ok b₁ htrail ⟨hframe₁, hok⟩
    cases ok with
    | false => exact .pure ⟨hframe.trans hframe₁, hok.1, hok.2.1, .inr ⟨j, x, hrest, hst, hx,
        hok.2.2⟩⟩
    | true =>
      obtain ⟨hm₁, hl₁, hmeta, himg, hd₁, hfault⟩ := hok
      have hamb₁ : b₁.view.metadata t ≠ .ambiguous := by
        rw [hmeta]
        refine hamb.register hm.durable ht fun y hy => ?_
        have hi := (hd₁.active y hy).1
        rwa [Board.durable, View.durable_image, himg] at hi
      refine .ite (fun h => absurd h (by decide)) fun _ => ?_
      rw [← loadInfo_of_image (b := b) himg]
      refine (lifts_handOver hm₁ hl₁ (htrail.faultless hf) hd₁ hamb₁).mono ?_
      rintro ok b' - ⟨rfl, hh⟩
      obtain ⟨hset, hfault'⟩ := hh.reconciled
      exact ⟨(hframe.trans hframe₁).trans hh.frame, hset, hfault'.trans hfault⟩

/-- `reconcile_journal` after a commissioning. -/
theorem lifts_reconcileCommissioned (hm : BootUpdate.Mirror b j) (hf : b.dev.Faultless)
    (hst : j.state = BootUpdateState.aborted.code)
    (hres : j.lastResult = BootUpdateResult.commissioned.code) :
    Runs (Lift Recovers) (reconcileCommissioned j.active)
      (fun ok b' => Frame b b' ∧ Reconciled b b' ok) b := by
  unfold reconcileCommissioned
  cases hx : j.active with
  | none =>
    exact .pure ⟨.refl b, ⟨j, hm, .inr hst, fun _ _ x hx' => absurd (hx.symm.trans hx') (by simp)⟩,
      rfl⟩
  | some x =>
    dsimp only
    rw [bind_reload, Runs.bind_flash, Runs.bind_getRam]
    have hl := mirror_reloaded b b.ram.lifecycle b.ram
    have hframe : Frame b { b with ram := { b.ram with
        lifecycle := reloaded b.ram.lifecycle b.mem } } := ⟨rfl, rfl, rfl, rfl⟩
    have hm₁ := hm.withRam (m := { b.ram with lifecycle := reloaded b.ram.lifecycle b.mem })
      rfl hm.valid hm.fault hm.current
    have hi : ∀ {c : Board}, c.dev = b.dev → imageValid c.mem x = imageValid b.durable.image x := by
      rintro c hc
      rw [imageValid_view]
      show imageValid (BootFlash.image c.dev.mem) x = imageValid (BootFlash.image b.dev.mem) x
      rw [hc]
    refine .ite (fun he => ?_) fun he => ?_
    · obtain rfl := hm.current
      have hempty := (hl x).status_empty.1 he.1
      refine (lifts_initializeConfirmed (b := { b with ram := { b.ram with
          lifecycle := reloaded b.ram.lifecycle b.mem } }) hm.ready hf hempty
        (.first x _ (Register.current_eq_unset.2 (.inl hempty)) (.commission _ _ hm.durable
          (.inr ⟨hst, hres⟩) hx ((hi rfl).symm.trans he.2)))).mono ?_
      rintro ok b' - ⟨rfl, hc⟩
      refine ⟨hframe.trans (.of_changed hc), ⟨_, hm₁.of_metadata hc, .inr hst, ?_⟩,
        by rw [hc.ram]; rfl⟩
      intro _ _ y hy hempty'
      obtain rfl := Option.some.inj (hx.symm.trans hy)
      rw [hc.view, View.setMetadata_self] at hempty'
      cases hempty'
    · refine .pure ⟨hframe, ⟨j, hm₁, .inr hst, ?_⟩, rfl⟩
      intro _ _ y hy hempty
      obtain rfl := Option.some.inj (hx.symm.trans hy)
      by_contra hne
      refine he ⟨(hl x).status_empty.2 hempty, (hi rfl).trans ?_⟩
      exact Bool.eq_true_of_not_eq_false hne

theorem lifts_reconcileJournal (hu : BootUpdate.NoJournal b ∨ ∃ j, BootUpdate.AtRest b j)
    (hf : b.dev.Faultless) (hamb : b.durable.Unhindered) :
    Runs (Lift Recovers) reconcileJournal
      (fun ok b' => Frame b b' ∧ Reconciled b b' ok) b := by
  unfold reconcileJournal
  rw [Runs.bind_getRam]
  rcases hu with hno | ⟨j, hrest⟩
  · refine .ite (fun _ => ?_) fun h => absurd h (by simp [hno.valid])
    rw [bind_setStorageFault]
    exact .pure ⟨⟨rfl, rfl, rfl, rfl⟩, rfl, rfl, .inl ⟨hno, rfl⟩⟩
  have hm := hrest.mirror
  refine .ite (fun h => absurd h (by simp [hm.valid, hm.fault])) fun _ => ?_
  rw [hm.current]
  refine .ite (fun hst => lifts_reconcilePending hrest hf hamb hst) fun hst => ?_
  refine .ite (fun hc => lifts_reconcileCommissioned hm hf hc.1 hc.2) fun hc => ?_
  refine .pure ⟨.refl b, ⟨j, hm, ?_, fun ha hr => absurd ⟨ha, hr⟩ hc⟩, rfl⟩
  rcases hrest.state with hs | hs | ⟨hs, -⟩
  exacts [.inl hs, .inr hs, absurd hs hst]

/-! ## Exhausted trials -/

/-- A trial without an attempt left. -/
def Exhausted (r : BootSlotMetadata) : Prop :=
  r.state = BootImageState.trial.code ∧ maxTrialAttempts ≤ r.bootAttempts

/-- What the end of an exhausted trial of `s` leaves. -/
inductive Resolved (b : Board) (s : Slot) (b' : Board) : Prop where
  | kept (h : b' = b) (hs : ∀ r, b.view.Metadata s r → ¬ Exhausted r)
  | failed (r next : BootSlotMetadata) (o : Option BootSlotMetadata)
    (hr : b.view.metadata s = .valid r o) (hx : Exhausted r)
    (hnext : next = BootMetadata.completed s (r.sequence + 1) (failedRecord r s
      (b.durable.fallback s) b.ram.lifecycle.currentResetReason.code))
    (hc : Changed b { b.ram with lifecycle := { b.ram.lifecycle with
        metadata := Function.update b.ram.lifecycle.metadata s next } }
      (b.view.setMetadata s (.valid next (some r))) b')

theorem transitionAllowed_failed (hs : r.state = BootImageState.trial.code) (fallback : SlotId)
    (reason : Word) :
    BootMetadata.transitionAllowed r (failedRecord r s fallback reason) = true := by
  simp [BootMetadata.transitionAllowed, failedRecord, hs, BootImageState.code]

theorem lifts_resolveExhaustedTrial (hu : BootUpdate.Mirror b j)
    (hstate : j.state = BootUpdateState.idle.code ∨ j.state = BootUpdateState.aborted.code)
    (hl : Mirror b) (hf : b.dev.Faultless) :
    Runs (Lift Recovers) (resolveExhaustedTrial s)
      (fun ok b' => ok = true ∧ Resolved b s b') b := by
  unfold resolveExhaustedTrial
  rw [Runs.bind_flash, Runs.bind_getRam]
  dsimp only
  refine .ite (fun hx => ?_) fun hx => .pure ⟨rfl, .kept rfl fun r hr he => hx ?_⟩
  · obtain ⟨r, o, hr⟩ := (hl s).status_valid.1 hx.1
    have hrec := (hl s).record r ⟨o, hr⟩
    rw [hrec] at hx ⊢
    rw [(hl s.other).fallbackSlot]
    have hwf := (View.durable_valid b.dev.mem).metadata s r (View.metadata_iff.2 ⟨o, hr⟩)
    have hcommit := fun (ram : Ram) (hram : ram.flash = b.ram.flash) =>
      BootMetadata.lifts_commit (S := Recovers) (b := { b with ram := ram })
        (by rw [hram]; exact hu.ready) hf hr
        (transitionAllowed_failed hx.2.1 (b.durable.fallback s) b.ram.lifecycle.currentResetReason.code)
        (hwf.failedRecord s _ b.ram.lifecycle.currentResetReason)
        (.write s r _ (View.metadata_iff.2 ⟨o, hr⟩)
          (.exhausted j _ hu.durable hstate hx.2.1 hx.2.2))
    unfold setMetadata
    rw [Runs.bind_setLifecycle]
    refine (hcommit { b.ram with lifecycle := { b.ram.lifecycle with
      metadata := Function.update b.ram.lifecycle.metadata s (failedRecord r s
        (b.durable.fallback s) b.ram.lifecycle.currentResetReason.code) } } rfl).bind ?_
    rintro res b' - ⟨rfl, hc⟩
    dsimp only
    rw [Runs.bind_setLifecycle]
    refine .pure ⟨rfl, .failed r _ o hr hx.2 rfl ⟨?_, hc.view, hc.retained, hc.hw⟩⟩
    rw [hc.ram]
    simp only [Function.update_idem]
  · rw [(hl s).record r hr]
    exact ⟨(hl s).status_valid.2 ⟨r, hr⟩, he⟩

namespace Resolved

theorem frame (h : Resolved b s b') : Frame b b' := by
  cases h with
  | kept h _ =>
    rw [h]
    exact .refl b
  | failed r next o _ _ _ hc =>
    refine ⟨?_, ?_, hc.retained, hc.hw⟩
    · rw [hc.ram]
    · rw [hc.ram]

theorem storageFault (h : Resolved b s b') :
    b'.ram.lifecycle.storageFault = b.ram.lifecycle.storageFault := by
  cases h with
  | kept h _ => rw [h]
  | failed r next o _ _ _ hc => rw [hc.ram]

theorem update (h : Resolved b s b') (hu : BootUpdate.Mirror b j) : BootUpdate.Mirror b' j := by
  cases h with
  | kept h _ => rwa [h]
  | failed r next o _ _ _ hc => exact hu.of_metadata hc

theorem other (h : Resolved b s b') (ht : t ≠ s) : b'.view.metadata t = b.view.metadata t := by
  cases h with
  | kept h _ => rw [h]
  | failed r next o _ _ _ hc => rw [hc.view, View.setMetadata_other ht]

theorem mirror (h : Resolved b s b') (hl : Mirror b) : Mirror b' := by
  cases h with
  | kept h _ => rwa [h]
  | failed r next o hr _ _ hc =>
    intro t
    by_cases ht : t = s
    · subst ht
      have hv : b'.view.metadata t = .valid next (some r) := by
        rw [hc.view, View.setMetadata_self]
      refine ⟨?_, fun r' ⟨o', hr'⟩ => ?_⟩
      · rw [hc.ram, hv]
        exact (hl t).status_valid.2 ⟨r, o, hr⟩
      · rw [hc.ram]
        exact (Function.update_self ..).trans (Register.valid.inj (hv.symm.trans hr')).1
    · have hv : b'.view.metadata t = b.view.metadata t := by
        rw [hc.view, View.setMetadata_other ht]
      refine ⟨?_, fun r' hr' => ?_⟩
      · rw [hc.ram, hv]
        exact (hl t).status
      · rw [hc.ram]
        exact (Function.update_of_ne ht ..).trans ((hl t).record r' (by rwa [View.Metadata, ← hv]))

theorem spent (h : Resolved b s b') (r : BootSlotMetadata) (hr : b'.view.Metadata s r) :
    ¬ Exhausted r := by
  cases h with
  | kept h hs =>
    rw [h] at hr
    exact hs r hr
  | failed r' next o _ _ hnext hc =>
    obtain ⟨o', hr⟩ := hr
    rw [hc.view, View.setMetadata_self] at hr
    obtain rfl := (Register.valid.inj hr).1
    rintro ⟨hst, -⟩
    rw [hnext] at hst
    exact absurd hst (show ¬ BootImageState.invalid.code = BootImageState.trial.code by decide)

end Resolved

/-- `resolve_exhausted_trials`: no exhausted trial is left. -/
theorem lifts_resolveExhaustedTrials (hu : BootUpdate.Mirror b j)
    (hstate : j.state = BootUpdateState.idle.code ∨ j.state = BootUpdateState.aborted.code)
    (hl : Mirror b) (hf : b.dev.Faultless) :
    Runs (Lift Recovers) resolveExhaustedTrials
      (fun ok b' => ok = true ∧ ∃ b₁, Resolved b .a b₁ ∧ Resolved b₁ .b b') b := by
  unfold resolveExhaustedTrials
  refine (lifts_resolveExhaustedTrial hu hstate hl hf).bind ?_
  rintro ok b₁ htrail ⟨rfl, h₁⟩
  refine .ite (fun h => absurd h (by decide)) fun _ => ?_
  refine (lifts_resolveExhaustedTrial (h₁.update hu) hstate (h₁.mirror hl)
    (htrail.faultless hf)).mono ?_
  rintro ok b' - ⟨rfl, h₂⟩
  exact ⟨rfl, b₁, h₁, h₂⟩

/-! ## The whole of it -/

/-- How `BootLifecycle_Init` ends. -/
inductive Started (b : Board) : Bool → Prop where
  | done (j : BootUpdateJournal) (settled : Settled b j)
    (fault : b.ram.lifecycle.storageFault = false)
    (spent : ∀ s r, b.view.Metadata s r → ¬ Exhausted r) : Started b true
  | noJournal (h : BootUpdate.NoJournal b) (fault : b.ram.lifecycle.storageFault = true) :
    Started b false
  | stuck (j : BootUpdateJournal) (x : Slot) (h : Stuck b j x) : Started b false
  | lost (j : BootUpdateJournal) (settled : Settled b j)
    (status : ∀ s, b.ram.lifecycle.metadataStatus s = .invalid)
    (fault : b.ram.lifecycle.storageFault = true) : Started b false

theorem Resolved.settled (h : Resolved b s b') (hset : Settled b j) : Settled b' j := by
  refine ⟨h.update hset.mirror, hset.state, fun ha hc x hx hempty => ?_⟩
  cases h with
  | kept h _ =>
    rw [h] at hempty ⊢
    exact hset.commissioned ha hc x hx hempty
  | failed r next o _ _ _ hchg =>
    have hxs : x ≠ s := by
      rintro rfl
      rw [hchg.view, View.setMetadata_self] at hempty
      cases hempty
    rw [hchg.view, View.setMetadata_other hxs] at hempty
    rw [hchg.durable]
    exact hset.commissioned ha hc x hx hempty

theorem Settled.congr (h : Settled b j) (hdev : b'.dev = b.dev)
    (hready : b'.ram.flash = b.ram.flash) (hupdate : b'.ram.update = b.ram.update) :
    Settled b' j := by
  refine ⟨h.mirror.congr hdev (by rw [hready]) hupdate, h.state, ?_⟩
  rw [Board.durable, Board.view, hdev]
  exact h.commissioned

theorem Stuck.congr {x : Slot} (h : Stuck b j x) (hdev : b'.dev = b.dev)
    (hready : b'.ram.flash = b.ram.flash) (hupdate : b'.ram.update = b.ram.update) :
    Stuck b' j x := by
  refine ⟨h.rest.congr hdev hready hupdate, h.state, h.active, ?_⟩
  rw [Board.durable, Board.view, hdev]
  exact h.fallback

theorem Started.congr {ok : Bool} (h : Started b ok) (hdev : b'.dev = b.dev)
    (hready : b'.ram.flash = b.ram.flash) (hupdate : b'.ram.update = b.ram.update)
    (hstatus : b'.ram.lifecycle.metadataStatus = b.ram.lifecycle.metadataStatus)
    (hfault : b'.ram.lifecycle.storageFault = b.ram.lifecycle.storageFault) : Started b' ok := by
  cases h with
  | done j hset hf hspent =>
    refine .done j (hset.congr hdev hready hupdate) (hfault.trans hf) ?_
    rw [Board.view, hdev]
    exact hspent
  | noJournal hno hf => exact .noJournal (hno.congr hdev hupdate) (hfault.trans hf)
  | stuck j x hst => exact .stuck j x (hst.congr hdev hready hupdate)
  | lost j hset hs hf =>
    exact .lost j (hset.congr hdev hready hupdate) (by rwa [hstatus]) (hfault.trans hf)

theorem captured_eq (l : State) :
    (captured l).metadata = l.metadata ∧ (captured l).metadataStatus = l.metadataStatus ∧
      (captured l).storageFault = l.storageFault ∧
      (captured l).currentResetReason = l.currentResetReason := by
  unfold captured
  cases diagnosticSlot l <;> exact ⟨rfl, rfl, rfl, rfl⟩

theorem Mirror.congr (h : Mirror b) (hdev : b'.dev = b.dev)
    (hm : b'.ram.lifecycle.metadata = b.ram.lifecycle.metadata)
    (hs : b'.ram.lifecycle.metadataStatus = b.ram.lifecycle.metadataStatus) : Mirror b' := by
  refine fun s => ⟨?_, fun r hr => ?_⟩
  · rw [hs, Board.view, hdev]
    exact (h s).status
  · rw [Board.view, hdev] at hr
    rw [hm]
    exact (h s).record r hr

/-- The board after the last lines of `BootLifecycle_Init`. -/
def finished (b : Board) : Board :=
  { b with ram := { b.ram with lifecycle := captured (reloaded b.ram.lifecycle b.mem) } }

theorem mirror_finished (b : Board) : Mirror (finished b) :=
  (mirror_reloaded b b.ram.lifecycle b.ram).congr rfl (captured_eq _).1 (captured_eq _).2.1

theorem finished_fault (b : Board) :
    (finished b).ram.lifecycle.storageFault = b.ram.lifecycle.storageFault :=
  (captured_eq _).2.2.1

theorem Frame.withLifecycle {l : State} (h : Frame b b')
    (hl : l.currentResetReason = b'.ram.lifecycle.currentResetReason) :
    Frame b { b' with ram := { b'.ram with lifecycle := l } } :=
  ⟨congrArg (fun ram : Ram => { ram with lifecycle := l }) h.ram, hl.trans h.reason, h.retained,
    h.hw⟩

theorem Frame.finished (h : Frame b b') : Frame b (finished b') :=
  h.withLifecycle (captured_eq _).2.2.2

/-- The board after the first line of `BootLifecycle_Init`. -/
def entered (b : Board) (reason : BootResetReason) : Board :=
  { b with ram := { b.ram with lifecycle := { b.ram.lifecycle with
      currentResetReason := reason
      storageFault := false } } }

/-- `BootLifecycle_Init`. -/
theorem lifts_init {reason : BootResetReason}
    (hu : BootUpdate.NoJournal b ∨ ∃ j, BootUpdate.AtRest b j) (hf : b.dev.Faultless)
    (hamb : b.durable.Unhindered) :
    Runs (Lift Recovers) (init reason)
      (fun ok b' => Frame (entered b reason) b' ∧ Mirror b' ∧ Started b' ok) b := by
  have hu' : BootUpdate.NoJournal (entered b reason) ∨ ∃ j, BootUpdate.AtRest (entered b reason) j :=
    hu.imp (fun h => h.congr rfl rfl) fun ⟨j, h⟩ => ⟨j, h.congr rfl rfl rfl⟩
  unfold init
  rw [Runs.bind_setLifecycle]
  refine (lifts_reconcileJournal (b := entered b reason) hu' hf hamb).bind ?_
  rintro ok b₁ htrail ⟨hframe, hrec⟩
  cases ok with
  | false =>
    refine .ite (fun _ => ?_) fun h => absurd rfl h
    rw [bind_reload, bind_captureDiagnostics]
    obtain ⟨hdev, hupd, hcase⟩ := hrec
    refine .pure (b := finished b₁) ⟨hframe.finished, mirror_finished b₁, ?_⟩
    rcases hcase with ⟨hno, hfault⟩ | ⟨j, x, hst⟩
    · exact .noJournal (hno.congr hdev hupd) ((finished_fault b₁).trans hfault)
    · refine .stuck j x (hst.congr hdev ?_ hupd)
      show b₁.ram.flash = _
      rw [hframe.ram]
  | true =>
    obtain ⟨⟨j, hset⟩, hfault⟩ := hrec
    refine .ite (fun h => absurd h (by decide)) fun _ => ?_
    rw [bind_reload, Runs.bind_getRam]
    have hl := mirror_reloaded b₁ b₁.ram.lifecycle b₁.ram
    have hset₂ : Settled { b₁ with ram := { b₁.ram with
        lifecycle := reloaded b₁.ram.lifecycle b₁.mem } } j := hset.congr rfl rfl rfl
    refine .ite (fun hlost => ?_) fun hlost => ?_
    · rw [bind_setStorageFault, bind_captureDiagnostics]
      refine .pure ⟨?_, hl.congr rfl (captured_eq _).1 (captured_eq _).2.1, .lost j
        (hset.congr rfl rfl rfl) (fun s => ?_) (captured_eq _).2.2.1⟩
      · exact hframe.withLifecycle (captured_eq _).2.2.2
      · refine (congrFun (captured_eq _).2.1 s).trans ?_
        cases s with
        | a => exact hlost.1
        | b => exact hlost.2
    · refine (lifts_resolveExhaustedTrials hset₂.mirror hset.state hl (htrail.faultless hf)).bind ?_
      rintro ok b₃ htrail₃ ⟨rfl, b₂, h₂, h₃⟩
      refine .ite (fun h => absurd h (by decide)) fun _ => ?_
      rw [bind_reload, bind_captureDiagnostics]
      refine .pure (b := finished b₃) ⟨?_, mirror_finished b₃, .done j ?_ ?_ ?_⟩
      · have hframe₁ := hframe.withLifecycle (l := reloaded b₁.ram.lifecycle b₁.mem) rfl
        exact ((hframe₁.trans h₂.frame).trans h₃.frame).finished
      · exact (h₃.settled (h₂.settled hset₂)).congr rfl rfl rfl
      · rw [finished_fault, h₃.storageFault, h₂.storageFault]
        exact hfault
      · intro s r hr
        cases s with
        | a => exact h₂.spent r (by rwa [View.Metadata, ← h₃.other (by decide)])
        | b => exact h₃.spent r hr

end BootLifecycle
