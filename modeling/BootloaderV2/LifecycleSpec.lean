import BootloaderV2.UpdateSpec

/-!
# The boot lifecycle as steps on the durable state

`BootLifecycle_Init` takes recovery steps until nothing is left to do, and its variables then agree
with the metadata on flash.
-/

open BootConfig NorFlash CrashM TwoCopy

namespace BootResetReason

theorem code_le (reason : BootResetReason) : reason.code ≤ debug.code := by
  cases reason <;> decide

end BootResetReason

namespace BootMetadata

variable {r : BootSlotMetadata} {st : BootImageState} {reason : BootResetReason}

/-! ## Records with valid fields -/

theorem WellFormed.attempts_zero (h : WellFormed r)
    (hs : r.state = BootImageState.pending.code ∨ r.state = BootImageState.confirmed.code ∨
      r.state = BootImageState.verified.code) : r.bootAttempts = 0 := by
  have hf := h.fields
  unfold fieldsValid at hf
  split at hf
  · cases hf
  · rename_i hn
    by_contra ha
    exact hn ⟨hs, ha⟩

theorem wellFormed_verifiedRecord (version counter : Word) (reason : BootResetReason) :
    WellFormed (verifiedRecord version counter reason.code) :=
  ⟨show BootImageState.verified.code ≤ _ by decide, show (0 : Word) ≤ maxTrialAttempts by decide,
    reason.code_le, show (0 : Word) ≤ BootLifecycleResult.metadataError.code by decide,
    .inr rfl, .inr rfl, rfl, rfl, rfl, rfl⟩

theorem wellFormed_confirmedRecord (s : Slot) (version counter : Word) (reason : BootResetReason) :
    WellFormed (BootLifecycle.confirmedRecord s version counter reason.code) :=
  ⟨show BootImageState.confirmed.code ≤ _ by decide, show (0 : Word) ≤ maxTrialAttempts by decide,
    reason.code_le, show (0 : Word) ≤ BootLifecycleResult.metadataError.code by decide,
    .inr rfl, .inr rfl, rfl, rfl, rfl, rfl⟩

theorem WellFormed.pendingRecord (h : WellFormed r)
    (hs : r.state = BootImageState.verified.code) (reason : BootResetReason) :
    WellFormed (stateRecord r .pending reason.code BootLifecycleResult.none.code) := by
  have ha := h.attempts_zero (.inr (.inr hs))
  refine ⟨show BootImageState.pending.code ≤ _ by decide, h.bootAttempts, reason.code_le,
    show BootLifecycleResult.none.code ≤ _ by decide, h.failedSlot, h.rollbackTarget, h.flags,
    h.reserved0, h.reserved1, ?_⟩
  simp [fieldsValid, stateRecord, ha, BootImageState.code]

theorem WellFormed.failedRecord (h : WellFormed r) (s : Slot) (fallback : SlotId)
    (reason : BootResetReason) :
    WellFormed (BootLifecycle.failedRecord r s fallback reason.code) := by
  refine ⟨show BootImageState.invalid.code ≤ _ by decide, h.bootAttempts, reason.code_le, ?_, ?_,
    ?_, h.flags, h.reserved0, h.reserved1, ?_⟩
  · show (if fallback = none then BootLifecycleResult.trialFailed else .rollbackOccurred).code ≤ _
    split <;> decide
  · left
    show s.code ≤ 1
    cases s <;> decide
  · show SlotId.code fallback ≤ 1 ∨ _
    cases fallback with
    | none => exact .inr rfl
    | some f => exact .inl (by cases f <;> decide)
  · simp [fieldsValid, BootLifecycle.failedRecord, BootImageState.code]

theorem WellFormed.trialRecord (h : WellFormed r) (reason : BootResetReason) :
    WellFormed (stateRecord r .trial reason.code BootLifecycleResult.trialStarted.code) :=
  ⟨show BootImageState.trial.code ≤ _ by decide, show (1 : Word) ≤ maxTrialAttempts by decide,
    reason.code_le, show BootLifecycleResult.trialStarted.code ≤ _ by decide, h.failedSlot,
    h.rollbackTarget, h.flags, h.reserved0, h.reserved1, rfl⟩

theorem WellFormed.confirmRecord (h : WellFormed r) (reason : BootResetReason) :
    WellFormed (stateRecord r .confirmed reason.code BootLifecycleResult.confirmed.code) :=
  ⟨show BootImageState.confirmed.code ≤ _ by decide, show (0 : Word) ≤ maxTrialAttempts by decide,
    reason.code_le, show BootLifecycleResult.confirmed.code ≤ _ by decide, h.failedSlot,
    h.rollbackTarget, h.flags, h.reserved0, h.reserved1, rfl⟩

theorem WellFormed.attemptRecord (h : WellFormed r) (hs : r.state = BootImageState.trial.code)
    (ha : ¬ maxTrialAttempts ≤ r.bootAttempts) (reason : BootResetReason) :
    WellFormed (attemptRecord r reason.code) := by
  have hlt : r.bootAttempts.toNat < 3 := by
    have h3 : maxTrialAttempts.toNat = 3 := rfl
    rw [BitVec.le_def, h3] at ha
    omega
  have hval : (r.bootAttempts + 1).toNat = r.bootAttempts.toNat + 1 := by
    rw [BitVec.toNat_add]
    exact Nat.mod_eq_of_lt (by simp; omega)
  have hle : r.bootAttempts + 1 ≤ maxTrialAttempts := by
    rw [BitVec.le_def, hval]
    exact hlt
  refine ⟨h.state, hle, reason.code_le, show BootLifecycleResult.trialStarted.code ≤ _ by decide,
    h.failedSlot, h.rollbackTarget, h.flags, h.reserved0, h.reserved1, ?_⟩
  have hne : r.bootAttempts + 1 ≠ 0 := by
    intro h0
    have := congrArg BitVec.toNat h0
    rw [hval] at this
    simp at this
  have hgt : ¬ maxTrialAttempts < r.bootAttempts + 1 := by
    rw [BitVec.not_lt]
    exact hle
  unfold fieldsValid BootMetadata.attemptRecord
  dsimp only
  rw [hs, if_neg (fun h => absurd h.1 (by decide)), if_neg (by tauto)]

/-! ## Writing calls -/

variable {S : Durable → Durable → Prop} {b : Board} {s : Slot} {o : Option BootSlotMetadata}

/-- `BootMetadata_SetState` on a record in another state. -/
theorem lifts_setState {result : Word} (hready : b.ram.flash.ready = true) (hf : b.dev.Faultless)
    (hv : b.view.metadata s = .valid r o) (hne : r.state ≠ st.code)
    (hallowed : transitionAllowed r (stateRecord r st reason.code result) = true)
    (hwf : WellFormed (stateRecord r st reason.code result))
    (hS : S b.durable (b.durable.setMetadata s
      (completed s (r.sequence + 1) (stateRecord r st reason.code result)))) :
    Runs (Lift S) (setState s st reason.code result)
      (fun ok b' => ok = true ∧ Changed b b.ram (b.view.setMetadata s
        (.valid (completed s (r.sequence + 1) (stateRecord r st reason.code result)) (some r))) b')
      b := by
  refine lifts_call (.setState st reason.code result) hready hf hv ?_ hwf hS
  simp only [Call.request, if_neg hne, request]
  exact if_pos ⟨.inr hallowed, hwf⟩

end BootMetadata

namespace BootLifecycle

/-- The variables of `boot_lifecycle.c` for one slot agree with its metadata on flash. -/
structure MirrorSlot (b : Board) (s : Slot) : Prop where
  status : b.ram.lifecycle.metadataStatus s = BootMetadata.registerStatus (b.view.metadata s)
  record : ∀ r, b.view.Metadata s r → b.ram.lifecycle.metadata s = r

/-- The variables of `boot_lifecycle.c` agree with the metadata on flash. -/
def Mirror (b : Board) : Prop := ∀ s, MirrorSlot b s

variable {b b' : Board} {j : BootUpdateJournal} {s t : Slot} {r : BootSlotMetadata}

theorem mirror_reloaded (b : Board) (l : State) (ram : Ram) :
    Mirror { b with ram := { ram with lifecycle := reloaded l b.mem } } := by
  refine fun s => ⟨BootMetadata.status_load s _, fun r hr => ?_⟩
  obtain ⟨k, hk⟩ := BootMetadata.load_iff.2 hr
  show (reloaded l b.mem).metadata s = r
  rw [reloaded_metadata, show BootMetadata.load s b.mem = .valid k r from hk]

theorem bind_reload {β : Type} {R : View → View → Prop} {n : BootM β} {P : β → Board → Prop} :
    Runs R (reload >>= fun _ => n) P b ↔
      Runs R n P { b with ram := { b.ram with lifecycle := reloaded b.ram.lifecycle b.mem } } :=
  Iff.rfl

theorem bind_captureDiagnostics {β : Type} {R : View → View → Prop} {n : BootM β}
    {P : β → Board → Prop} :
    Runs R (captureDiagnostics >>= fun _ => n) P b ↔
      Runs R n P { b with ram := { b.ram with lifecycle := captured b.ram.lifecycle } } := Iff.rfl

theorem bind_setStorageFault {β : Type} {R : View → View → Prop} {n : BootM β}
    {P : β → Board → Prop} :
    Runs R (setStorageFault >>= fun _ => n) P b ↔
      Runs R n P { b with ram := { b.ram with lifecycle :=
        { b.ram.lifecycle with storageFault := true } } } := Iff.rfl

theorem MirrorSlot.status_valid (h : MirrorSlot b s) :
    b.ram.lifecycle.metadataStatus s = .valid ↔ ∃ r, b.view.Metadata s r := by
  rw [h.status]
  cases hg : b.view.metadata s with
  | valid r o => simp [BootMetadata.registerStatus, View.Metadata, hg]
  | empty => simp [BootMetadata.registerStatus, View.Metadata, hg]
  | spoiled => simp [BootMetadata.registerStatus, View.Metadata, hg]
  | ambiguous => simp [BootMetadata.registerStatus, View.Metadata, hg]

theorem MirrorSlot.status_empty (h : MirrorSlot b s) :
    b.ram.lifecycle.metadataStatus s = .empty ↔ b.view.metadata s = .empty := by
  rw [h.status]
  cases hg : b.view.metadata s <;> simp [BootMetadata.registerStatus]

theorem imageValid_view (b : Board) (s : Slot) :
    imageValid b.mem s = imageValid b.durable.image s :=
  (BootFlash.imageValid_image b.dev.mem s).symm

theorem version_view (b : Board) (s : Slot) :
    (BootImage.loadInfo b.mem (some s)).header.softwareVersion = b.durable.version s := by
  show _ = (BootImage.loadInfo (BootFlash.image b.dev.mem) (some s)).header.softwareVersion
  rw [BootFlash.loadInfo_image]
  rfl

/-- The fallback of a failed trial, read from the variables or from the flash. -/
theorem MirrorSlot.fallbackSlot (h : MirrorSlot b s.other) :
    fallbackSlot b.ram.lifecycle b.mem s = b.durable.fallback s := by
  unfold BootLifecycle.fallbackSlot Durable.fallback
  rw [imageValid_view]
  have hd : b.durable.metadata s.other = (b.view.metadata s.other).current := rfl
  rw [hd]
  cases hg : b.view.metadata s.other with
  | valid r o =>
    have hrec := h.record r ⟨o, hg⟩
    have hst := h.status_valid.2 ⟨r, o, hg⟩
    simp only [Register.current, hst, hrec, ne_eq, not_true_eq_false, false_or]
    by_cases hc : r.state = BootImageState.confirmed.code <;>
      cases imageValid b.durable.image s.other <;> simp [hc]
  | empty =>
    rw [if_pos (.inl (by rw [h.status, hg]; decide))]
    rfl
  | spoiled =>
    rw [if_pos (.inl (by rw [h.status, hg]; decide))]
    rfl
  | ambiguous =>
    rw [if_pos (.inl (by rw [h.status, hg]; decide))]
    rfl

/-! ## The handover -/

theorem unset_of_ne_ambiguous (h : b.view.metadata s ≠ .ambiguous)
    (hs : ∀ r, ¬ b.view.Metadata s r) : (b.view.metadata s).Unset := by
  cases hg : b.view.metadata s with
  | valid r o => exact absurd ⟨o, hg⟩ (hs r)
  | empty => exact .inl rfl
  | spoiled => exact .inr rfl
  | ambiguous => exact absurd hg h

/-- The other variables, the retained words and the environment are the same. -/
structure Frame (b b' : Board) : Prop where
  ram : b'.ram = { b.ram with update := b'.ram.update, lifecycle := b'.ram.lifecycle }
  reason : b'.ram.lifecycle.currentResetReason = b.ram.lifecycle.currentResetReason
  retained : b'.retained = b.retained
  hw : b'.hw = b.hw

theorem Frame.refl (b : Board) : Frame b b := ⟨rfl, rfl, rfl, rfl⟩

theorem Frame.trans {b₁ b₂ b₃ : Board} (h : Frame b₁ b₂) (h' : Frame b₂ b₃) : Frame b₁ b₃ := by
  refine ⟨?_, h'.reason.trans h.reason, h'.retained.trans h.retained, h'.hw.trans h.hw⟩
  rw [h'.ram, h.ram]

theorem Frame.of_changed {v : View} (h : Changed b b.ram v b') : Frame b b' :=
  ⟨by rw [h.ram], by rw [h.ram], h.retained, h.hw⟩

theorem Frame.of_saved {next : BootUpdateJournal} (h : BootUpdate.Saved b j next b') :
    Frame b b' :=
  ⟨by rw [h.2.ram], by rw [h.2.ram], h.2.retained, h.2.hw⟩

end BootLifecycle

/-- The journal's variables after a write to the metadata. -/
theorem BootUpdate.Mirror.of_metadata {b b' : Board} {j : BootUpdateJournal} {s : Slot}
    {g : Register BootSlotMetadata} {l : BootLifecycle.State} (hm : BootUpdate.Mirror b j)
    (hc : Changed b { b.ram with lifecycle := l } (b.view.setMetadata s g) b') :
    BootUpdate.Mirror b' j := by
  refine ⟨by rw [hc.ram]; exact hm.ready, by rw [hc.ram]; exact hm.valid,
    by rw [hc.ram]; exact hm.fault, by rw [hc.ram]; exact hm.current, ?_⟩
  rw [hc.view]
  exact hm.journal

theorem Deliverable.setMetadata {d : Durable} {j : BootUpdateJournal} {t : Slot}
    {r : BootSlotMetadata} (h : Deliverable d j t) (hwf : BootJournal.WellFormed j) :
    Deliverable (d.setMetadata t r) j t := by
  refine ⟨h.journal, h.state, h.target, h.accepts, h.publishes, fun x hx => ?_⟩
  obtain ⟨hi, c, hc, hs⟩ := h.active x hx
  refine ⟨hi, c, ?_, hs⟩
  rw [Durable.setMetadata_of_ne, hc]
  rw [hwf.active_ne_target hx h.target]
  exact t.other_ne

namespace BootLifecycle

variable {b b' : Board} {j : BootUpdateJournal} {s t : Slot} {r : BootSlotMetadata}

/-- The transaction in `j` has reached the metadata of its target and the journal is IDLE. -/
structure HandedOver (b : Board) (j : BootUpdateJournal) (t : Slot) (b' : Board) : Prop where
  frame : Frame b b'
  lifecycle : b'.ram.lifecycle = b.ram.lifecycle
  mirror : BootUpdate.Mirror b' (BootJournal.completed (j.sequence + 1)
    { j with state := BootUpdateState.idle.code })
  metadata : ∃ r, b'.view.Metadata t r ∧ b.durable.IsFor j t .pending r
  other : b'.view.metadata t.other = b.view.metadata t.other
  image : b'.view.image = b.view.image

/-- The journal becomes IDLE once the target is pending. -/
theorem lifts_finish {n : BootM Bool} (hu : BootUpdate.Mirror b j) (hf : b.dev.Faultless)
    (hd : Deliverable b.durable j t) (hr : b.view.Metadata t r)
    (hfor : b.durable.IsFor j t .pending r) :
    Runs (Lift Recovers) (BootUpdate.completeActivationHandoff >>= fun ok =>
        if ok = true then pure true else n)
      (fun ok b' => ok = true ∧ HandedOver b j t b') b := by
  refine (hu.completeActivationHandoff hf hd.state
    (.commit _ _ hu.durable (.handOff t r hd (View.metadata_iff.2 hr) hfor))).bind ?_
  rintro ok b' - ⟨rfl, hs⟩
  refine .ite (fun _ => .pure ⟨rfl, .of_saved hs, ?_, hs.1, ⟨r, ?_, hfor⟩, ?_, ?_⟩)
    fun h => absurd rfl h
  · rw [hs.2.ram]
  · rw [hs.2.view]
    exact hr
  · rw [hs.2.view]
  · rw [hs.2.view]

/-- A verified target becomes pending, and then the journal IDLE. -/
theorem lifts_promote {n n' : BootM Bool} {reason : BootResetReason}
    (hu : BootUpdate.Mirror b j) (hf : b.dev.Faultless) (hd : Deliverable b.durable j t)
    (hr : b.view.Metadata t r) (hfor : b.durable.IsFor j t .verified r) :
    Runs (Lift Recovers)
      (BootMetadata.setState t .pending reason.code BootLifecycleResult.none.code >>= fun ok =>
        if (!ok) = true then n'
        else BootUpdate.completeActivationHandoff >>= fun ok => if ok = true then pure true else n)
      (fun ok b' => ok = true ∧ HandedOver b j t b') b := by
  obtain ⟨o, ho⟩ := hr
  have hwf := (View.durable_valid b.dev.mem).metadata t r (View.metadata_iff.2 ⟨o, ho⟩)
  have hallowed : BootMetadata.transitionAllowed r (BootMetadata.stateRecord r .pending
      reason.code BootLifecycleResult.none.code) = true := by
    have ha := hwf.attempts_zero (.inr (.inr hfor.1))
    simp [BootMetadata.transitionAllowed, BootMetadata.stateRecord, hfor.1, ha,
      BootImageState.code]
  refine (BootMetadata.lifts_setState hu.ready hf ho ?_ hallowed
    (hwf.pendingRecord hfor.1 reason)
    (.write t r _ (View.metadata_iff.2 ⟨o, ho⟩) (.promote j reason hd hfor))).bind ?_
  · rw [hfor.1]
    decide
  rintro ok b₁ htrail ⟨rfl, hc⟩
  refine .ite (fun h => absurd h (by decide)) fun _ => ?_
  have hd₁ : b₁.durable = b.durable.setMetadata t _ := hc.durable.trans
    (View.durable_setMetadata rfl)
  refine (lifts_finish (t := t) (r := BootMetadata.completed t (r.sequence + 1)
      (BootMetadata.stateRecord r .pending reason.code BootLifecycleResult.none.code))
    (hu.of_metadata hc) (htrail.faultless hf) ?_ ?_ ?_).mono ?_
  · rw [hd₁]
    exact hd.setMetadata hu.wellFormed
  · rw [hc.view]
    exact ⟨some r, View.setMetadata_self⟩
  · rw [hd₁]
    exact ⟨rfl, hfor.2.1, hfor.2.2⟩
  · rintro ok b' - ⟨rfl, hh⟩
    refine ⟨rfl, (Frame.of_changed hc).trans hh.frame, ?_, hh.mirror, ?_, ?_, ?_⟩
    · rw [hh.lifecycle, hc.ram]
    · obtain ⟨r', hr', hfor'⟩ := hh.metadata
      rw [hd₁] at hfor'
      exact ⟨r', hr', hfor'⟩
    · rw [hh.other, hc.view, View.setMetadata_other t.other_ne]
    · rw [hh.image, hc.view]
      rfl

/-- `BootMetadata_InstallVerified` during the handover. -/
theorem lifts_install {reason : BootResetReason} (hu : BootUpdate.Mirror b j)
    (hf : b.dev.Faultless) (hd : Deliverable b.durable j t)
    (hamb : b.view.metadata t ≠ .ambiguous)
    (hpending : ∀ r, b.view.Metadata t r → ¬ b.durable.IsFor j t .pending r) :
    Runs (Lift Recovers)
      (BootMetadata.installVerified t (b.durable.version t) j.transactionId reason.code)
      (fun ok b' => ok = true ∧ ∃ r o,
        Changed b b.ram (b.view.setMetadata t (.valid r o)) b' ∧
          b.durable.IsFor j t .verified r) b := by
  have hwf := BootMetadata.wellFormed_verifiedRecord (b.durable.version t) j.transactionId reason
  by_cases hex : ∃ r, b.view.Metadata t r
  · obtain ⟨r, o, ho⟩ := hex
    by_cases hver : b.durable.IsFor j t .verified r
    · refine (BootMetadata.runs_call_recorded
        (.installVerified (b.durable.version t) j.transactionId reason.code) hu.ready ho ?_).mono ?_
      · exact if_pos ⟨hver.1, hver.2.1, hver.2.2⟩
      · rintro ok b' - ⟨rfl, rfl⟩
        exact ⟨rfl, r, o, ⟨rfl, by rw [← ho, View.setMetadata_eq], rfl, rfl⟩, hver⟩
    · refine (BootMetadata.lifts_call
        (.installVerified (b.durable.version t) j.transactionId reason.code) hu.ready hf ho ?_ hwf
        (.write t r _ (View.metadata_iff.2 ⟨o, ho⟩)
          (.install j reason hd (hpending r ⟨o, ho⟩) hver))).mono ?_
      · have hne : ¬ (r.state = BootImageState.verified.code ∧
            r.imageVersion = b.durable.version t ∧ r.updateCounter = j.transactionId) := hver
        simp only [BootMetadata.Call.request, if_neg hne, BootMetadata.request]
        exact if_pos ⟨.inl trivial, hwf⟩
      · rintro ok b' - ⟨rfl, hc⟩
        exact ⟨rfl, _, _, hc, rfl, rfl, rfl⟩
  · have hunset := unset_of_ne_ambiguous hamb fun r hr => hex ⟨r, hr⟩
    refine (BootMetadata.lifts_installVerified_first hu.ready hf hunset hwf
      (.first t _ (Register.current_eq_unset.2 hunset) (.install j reason hd))).mono ?_
    rintro ok b' - ⟨rfl, hc⟩
    exact ⟨rfl, _, _, hc, rfl, rfl, rfl⟩

/-- The handover of a deliverable transaction. -/
theorem lifts_handOver (hu : BootUpdate.Mirror b j) (hl : MirrorSlot b t) (hf : b.dev.Faultless)
    (hd : Deliverable b.durable j t) (hamb : b.view.metadata t ≠ .ambiguous) :
    Runs (Lift Recovers) (handOver t (BootImage.loadInfo b.mem (some t)))
      (fun ok b' => ok = true ∧ HandedOver b j t b') b := by
  obtain rfl := hu.current
  unfold handOver
  rw [Runs.bind_getRam]
  dsimp only
  rw [version_view]
  refine .ite (fun hn => ?_) fun hp => ?_
  · have hpending : ∀ r, b.view.Metadata t r →
        ¬ b.durable.IsFor b.ram.update.current t .pending r := by
      rintro r hr ⟨hs, hv, hcnt⟩
      rw [hl.status_valid.2 ⟨r, hr⟩, hl.record r hr, hs, hv, hcnt] at hn
      simp at hn
    refine (lifts_install hu hf hd hamb hpending).bind ?_
    rintro ok b₁ htrail ⟨rfl, r, o, hc, hfor⟩
    refine .ite (fun h => absurd h (by decide)) fun _ => ?_
    have hd₁ : b₁.durable = b.durable.setMetadata t r := hc.durable.trans
      (View.durable_setMetadata rfl)
    refine (lifts_promote (t := t) (r := r) (hu.of_metadata hc) (htrail.faultless hf) ?_ ?_ ?_).mono ?_
    · rw [hd₁]
      exact hd.setMetadata hu.wellFormed
    · rw [hc.view]
      exact ⟨o, View.setMetadata_self⟩
    · rw [hd₁]
      exact ⟨hfor.1, hfor.2.1, hfor.2.2⟩
    · rintro ok b' - ⟨rfl, hh⟩
      refine ⟨rfl, (Frame.of_changed hc).trans hh.frame, ?_, hh.mirror, ?_, ?_, ?_⟩
      · rw [hh.lifecycle, hc.ram]
      · obtain ⟨r', hr', hfor'⟩ := hh.metadata
        rw [hd₁] at hfor'
        exact ⟨r', hr', hfor'⟩
      · rw [hh.other, hc.view, View.setMetadata_other t.other_ne]
      · rw [hh.image, hc.view]
        rfl
  · simp only [Bool.not_eq_true', Bool.not_eq_false, Bool.and_eq_true, beq_iff_eq] at hp
    obtain ⟨⟨⟨hs, hst⟩, hv⟩, hcnt⟩ := hp
    obtain ⟨r, hr⟩ := hl.status_valid.1 hs
    rw [hl.record r hr] at hst hv hcnt
    exact lifts_finish hu hf hd hr ⟨hst, hv, hcnt⟩

end BootLifecycle
