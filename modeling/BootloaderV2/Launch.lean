import BootloaderV2.Application
import BootloaderV2.Quiescence
import BootloaderV2.Selection

/-!
# A boot that has recovered starts what it selects

`BOOT_STATE_ERROR` is a loop that only a reset leaves.  A boot whose flash commands succeed does not
get there: the slot that it selects can be prepared, and the gates of the jump let it through.
-/

open BootConfig NorFlash CrashM TwoCopy

theorem Runs.and_ensures {α : Type} {R : View → View → Prop} {m : BootM α}
    {Q P : α → Board → Prop} {b : Board} (h : Runs R m Q b) (h' : Ensures m P b) :
    Runs R m (fun a b' => Q a b' ∧ P a b') b :=
  wp_mono (wp_and h h') (fun _ _ h => ⟨h.1.1, h.1.2, h.2⟩) fun _ h => h.1

/-- No slot is left with a trial that has no attempt left. -/
def BootLifecycle.Unspent (b : Board) : Prop := ∀ s r, b.view.Metadata s r → ¬ Exhausted r

theorem Rested.unspent {b : Board} (h : Rested b.view) (hc : Consistent b.durable) :
    BootLifecycle.Unspent b := by
  intro s r hr
  cases hj : b.durable.journal with
  | record j => exact h.spent j (View.journal_iff.1 hj) s r hr
  | unset => exact absurd ((View.metadata_iff.2 hr).symm.trans (hc.unset hj s)) (by simp)
  | ambiguous => exact absurd hj hc.journal

theorem BootLifecycle.Unspent.congr {b b' : Board} (h : Unspent b) (hview : b'.view = b.view) :
    Unspent b' := by
  unfold Unspent
  rw [hview]
  exact h

namespace BootManager

variable {S : Durable → Durable → Prop} {b b' b₁ b₂ : Board} {s : Slot} {r : BootSlotMetadata}

/-- A confirmation leaves a confirmed record, which is not on trial. -/
theorem Answered.unspent (h : Answered b b₂) (hu : BootLifecycle.Unspent b) :
    BootLifecycle.Unspent b₂ := by
  have hsame : b₂.dev = b.dev → BootLifecycle.Unspent b₂ := fun hdev =>
    hu.congr (by rw [Board.view, hdev]; rfl)
  cases h with
  | none _ halike => exact hsame halike.dev
  | confirm x ok _ _ _ hc =>
    cases hc with
    | already _ _ _ hdev => exact hsame hdev
    | refused hdev _ => exact hsame hdev
    | written r o hr hs _ hview =>
      intro y c hy hspent
      rw [hview] at hy
      by_cases hyx : y = x
      · subst hyx
        obtain ⟨o', hy⟩ := hy
        rw [View.setMetadata_self] at hy
        cases hy
        have hstate : BootImageState.confirmed.code = BootImageState.trial.code := hspent.1
        exact absurd hstate (by decide)
      · obtain ⟨o', hy⟩ := hy
        rw [View.setMetadata_other hyx] at hy
        exact hu y c ⟨o', hy⟩ hspent

theorem permitted_of_selected (h : slotOfTarget (target b) = some s) : Permitted b s :=
  permitted_of_priority (of_target h).2.1

theorem stateOf_record (hl : BootLifecycle.Mirror b) (hr : b.durable.metadata s = .record r) :
    stateOf b.ram.lifecycle s = r.state := by
  have hview := View.metadata_iff.1 hr
  unfold stateOf
  rw [if_pos ((hl s).status_valid.2 ⟨r, hview⟩), (hl s).record r hview]

theorem stateOf_unset (hl : BootLifecycle.Mirror b) (hu : b.durable.metadata s = .unset) :
    stateOf b.ram.lifecycle s = BootImageState.empty.code := by
  unfold stateOf
  refine if_neg fun hv => ?_
  obtain ⟨r, hr⟩ := (hl s).status_valid.1 hv
  exact absurd (hu.symm.trans (View.metadata_iff.2 hr)) (by simp)

theorem durable_of_dev (h : b'.dev = b.dev) : b'.durable = b.durable := by
  unfold Board.durable Board.view
  rw [h]

/-- Where no slot is on trial a boot confirms none. -/
theorem Answered.unchanged (h : Answered b₁ b₂)
    (hno : ∀ s r, b₁.durable.metadata s = .record r → r.state ≠ BootImageState.trial.code) :
    b₂.durable = b₁.durable := by
  cases h with
  | none _ halike => exact durable_of_dev halike.dev
  | confirm x ok _ _ _ hconf =>
    cases hconf with
    | written r o hr hs _ _ => exact absurd hs (hno x r (View.metadata_iff.2 ⟨o, hr⟩))
    | already _ _ _ hdev => exact durable_of_dev hdev
    | refused hdev _ => exact durable_of_dev hdev

/-- Where a boot goes that has recovered: into the server, or on to a slot. -/
def exitFor (request sw : Bool) (selected : SlotId) : BootExit :=
  match selected with
  | some x => if request then .programming else if sw then .jumped x else .reset
  | none => .programming

/-- The steps of a trial of slot `s` are among those of `S`. -/
def StartsTrials (S : Durable → Durable → Prop) (b : Board) (s : Slot) : Prop :=
  ∀ {r next : BootSlotMetadata}, b.view.Metadata s r → LaunchWrite r next →
    next.state = BootImageState.trial.code →
    S b.durable (b.durable.setMetadata s (BootMetadata.completed s (r.sequence + 1) next))

/-- A permitted slot can be prepared. -/
theorem runs_prepareBoot_permitted (h : Permitted b s) (hu : BootLifecycle.Unspent b)
    (hready : b.ram.flash.ready = true) (hf : b.dev.Faultless) (hl : BootLifecycle.Mirror b)
    (hS : StartsTrials S b s) :
    Runs (Lift S) (BootLifecycle.prepareBoot s)
      (fun ok b' => ok = true ∧ BootLifecycle.Frame b b' ∧ BootLifecycle.Ready s b b' ∧
        BootLifecycle.Prepared b s b' true) b := by
  refine ((BootLifecycle.runs_prepareBoot hready hf hl hS).and_ensures
    BootLifecycle.ensures_prepareBoot).mono ?_
  rintro ok b' _ ⟨⟨hframe, _, _, hprep⟩, hok⟩
  cases ok with
  | true => exact ⟨rfl, hframe, hok rfl, hprep⟩
  | false =>
    -- a slot that is permitted is on trial, waits for it or is confirmed
    cases hprep with
    | refused _ hno =>
      obtain ⟨k, r, hload, -, hpri⟩ := hl.trusted h.metadata
      have hr : b.view.Metadata s r := BootMetadata.load_iff.1 ⟨k, hload⟩
      obtain ⟨hpending, hconfirmed, htrial⟩ := hno r hr
      rcases state_of_priority hpri with hst | hst | hst
      · exact absurd hst hpending
      · exact absurd ⟨hst, htrial hst⟩ (hu s r hr)
      · exact absurd hst hconfirmed

/-- How state JUMP_APP ends. -/
inductive Launched (b : Board) (s : Slot) (b' : Board) : BootExit → Prop where
  | reset (hsw : b.hw.srs.sw = false) (hdev : b'.dev = b.dev)
    (hret : b'.retained = b.ram.lifecycle.currentResetReason.normalizeRecord) :
    Launched b s b' .reset
  | jumped (hsw : b.hw.srs.sw = true) (prepared : BootLifecycle.Prepared b s b' true)
    (mirror : BootLifecycle.Mirror b')
    (reason : b'.ram.lifecycle.currentResetReason = b.ram.lifecycle.currentResetReason)
    (hret : b'.retained = BootLifecycle.handoverRecord b'.ram.lifecycle s) :
    Launched b s b' (.jumped s)

theorem runs_jumpApp (h : Permitted b s) (hu : BootLifecycle.Unspent b)
    (hready : b.ram.flash.ready = true) (hf : b.dev.Faultless) (hl : BootLifecycle.Mirror b)
    (hS : StartsTrials S b s) :
    Runs (Lift S) (jumpApp s) (fun exit b' => Launched b s b' exit) b := by
  unfold jumpApp
  rw [Runs.bind_get]
  refine .ite (fun hsw => ?_) fun hsw => ?_
  · rw [BootResetReason.preserveForNormalization_eq, Runs.bind_setRetained]
    exact .pure (.reset (by simpa using hsw) rfl rfl)
  apply (runs_prepareBoot_permitted h hu hready hf hl hS).bind
  rintro ok b₁ _ ⟨hok, hframe, hr, hprep⟩
  refine .ite (fun hno => absurd hno (by simp [hok])) fun _ => ?_
  have hnote : Runs (Lift S) (BootLifecycle.writeAppHandover s) (fun _ b' => b' =
      { b₁ with retained := BootLifecycle.handoverRecord b₁.ram.lifecycle s }) b₁ := by
    rw [BootLifecycle.writeAppHandover_eq, hr.mirror.bind_reload, Runs.bind_getRam]
    exact ⟨.refl _, rfl⟩
  apply hnote.bind
  intro _ b₂ _ hb₂
  -- the gates of the jump are those of the selection
  have hjump : BootJump.toSlot s b₂ = .done true b₂ := by
    rw [hb₂]
    exact toSlot_of_prepared h
      ⟨hr.update, hr.fault, hr.images, hr.mirror.congr rfl rfl rfl, hr.status, hr.priority⟩
  have hlaunched : Launched b s b₂ (.jumped s) := by
    have hdev : b₂.dev = b₁.dev := by rw [hb₂]
    have hprep₂ : BootLifecycle.Prepared b s b₂ true := by
      have hview : b₂.view = b₁.view := by rw [Board.view, hdev]; rfl
      cases hprep with
      | attempt r next o hr hw hst hv => exact .attempt r next o hr hw hst (hview.trans hv)
      | confirmed r hr hs hd => exact .confirmed r hr hs (hdev.trans hd)
    refine .jumped (by simpa using hsw) hprep₂ (hr.mirror.congr hdev ?_ ?_) ?_ ?_
    · rw [hb₂]
    · rw [hb₂]
    · rw [hb₂]
      exact hframe.reason
    · rw [hb₂]
  have hpure : Runs (Lift S) (BootJump.toSlot s) (fun ok b' => ok = true ∧ b' = b₂) b₂ := by
    unfold Runs wp
    rw [hjump]
    exact ⟨.refl _, rfl, rfl⟩
  apply hpure.bind
  rintro jumped b₃ _ ⟨hjumped, hb₃⟩
  refine .ite (fun _ => .pure (hb₃ ▸ hlaunched)) fun hno => absurd hjumped hno

/-- How a boot that has recovered ends: in the server, or with the selected slot. -/
inductive Ended (b b' : Board) : BootExit → Prop where
  | programming (b₂ : Board) (answered : Answered b b₂) (alike : b₂.Alike b')
    (reason : (softwareRequested b || b.hw.requestPin) = true ∨ slotOfTarget (target b₂) = none) :
    Ended b b' .programming
  | launched (b₂ b₃ : Board) (s : Slot) (exit : BootExit) (answered : Answered b b₂)
    (alike : b₂.Alike b₃) (consistent : Consistent b.durable → Consistent b₃.durable)
    (request : (softwareRequested b || b.hw.requestPin) = false)
    (selected : slotOfTarget (target b₃) = some s) (h : Launched b₃ s b' exit) : Ended b b' exit

/-- What state CHECK_REQUEST leaves. -/
def Checked (b : Board) (request : Bool) (b' : Board) : Prop :=
  request = (softwareRequested b || b.hw.requestPin) ∧ ∃ b₂, Answered b b₂ ∧ b₂.Alike b'

/-- The boot after `BootManager_Init`, where the steps of CHECK_REQUEST and of trials are among those
    of `S`. -/
theorem ends_of_checked (hb : Booted b b₁) (hrest : Rested b₁.view) (hc : Consistent b₁.durable)
    (hf : b₁.dev.Faultless) (hcheck : Runs (Lift S) checkRequest (Checked b₁) b₁)
    (hS : ∀ d d', d.Valid → S d d' → Consistent d → Consistent d')
    (hstarts : ∀ b₃ s, b₃.view.journal = b₁.view.journal → (∃ j, b₃.view.Journal j) →
      StartsTrials S b₃ s) :
    Runs (Lift S) afterInit (fun exit b' => Ended b₁ b' exit) b₁ := by
  have hspent := hrest.unspent hc
  obtain ⟨ok, hst⟩ := hb.started
  have hserve : ∀ {c b₂ : Board}, Answered b₁ c → c.Alike b₂ →
      ((softwareRequested b₁ || b₁.hw.requestPin) = true ∨ slotOfTarget (target c) = none) →
      Runs (Lift S) (do
        BootM.setManager fun m => { m with selectedTarget := .programming }
        return .programming) (fun exit b' => Ended b₁ b' exit) b₂ := by
    intro c b₂ hans h hreason
    exact ⟨.refl _, .programming c hans ⟨⟨h.flash, h.update, h.fault, h.reason, h.programming,
      h.security, h.hw⟩, h.dev, h.metadata, h.status⟩ hreason⟩
  apply hcheck.bind
  rintro request b₂ htrail₂ ⟨hrequest, c, hans, halike⟩
  rw [hrequest]
  refine .ite (fun hreq => hserve hans halike (.inl hreq)) fun hreq => ?_
  apply runs_checkApp.bind
  rintro slot b₃ htrail₃ ⟨hslot, halike₃, _, _⟩
  have halike' := halike.trans halike₃
  cases slot with
  | none => exact hserve hans halike' (.inr (by rw [← target_congr halike, ← hslot]))
  | some s =>
    have hsteady := hans.steady.trans halike'.toSteady
    have hselected : slotOfTarget (target b₃) = some s := by
      rw [target_congr halike₃, ← hslot]
    obtain ⟨j, hj⟩ := exists_journal hst (hsteady.fault.symm.trans (fault_of_selected hselected))
    have hjournal : b₃.view.journal = b₁.view.journal := by
      rw [halike'.view, hans.journal]
    have hj₃ : b₃.view.Journal j := by
      unfold View.Journal
      rw [hjournal]
      exact hj
    have htrail := htrail₂.trans htrail₃
    refine (runs_jumpApp (permitted_of_selected hselected)
      ((hans.unspent hspent).congr halike'.view) (hsteady.flash ▸ hb.ready)
      (htrail₃.faultless (htrail₂.faultless hf)) (halike'.mirror (hans.mirror hb.mirror))
      (hstarts b₃ s hjournal ⟨j, hj₃⟩)).mono ?_
    intro exit b' _ hlaunched
    exact .launched c b₃ s exit hans halike' (htrail.durable fun d d' hv hs hc => hS d d' hv hs hc)
      (by simpa using hreq) hselected hlaunched

theorem ends_afterInit (hb : Booted b b₁) (hrest : Rested b₁.view) (hc : Consistent b₁.durable)
    (hf : b₁.dev.Faultless) :
    Runs (Lift (Launches Resting)) afterInit (fun exit b' => Ended b₁ b' exit) b₁ := by
  obtain ⟨ok, hst⟩ := hb.started
  have hcheck := lifts_checkRequest (P := Resting) hb.ready hf hb.mirror fun hfault => by
    obtain ⟨j, hj⟩ := exists_journal hst hfault
    exact ⟨j, hj, hrest.journal j hj⟩
  refine ends_of_checked hb hrest hc hf (hcheck.mono ?_) ?_ ?_
  · rintro request b₂ _ ⟨hrequest, c, hans, halike, _, _⟩
    exact ⟨hrequest, c, hans, halike⟩
  · exact fun d d' hv hs hc => hc.launches hv (fun _ hj => hj) hs
  · rintro b₃ s hjournal ⟨j, hj⟩ r next hr hw _
    have hj₁ : b₁.view.Journal j := by
      unfold View.Journal
      rw [← hjournal]
      exact hj
    exact .write j s _ _ (View.journal_iff.2 hj) (hrest.journal j hj₁) (View.metadata_iff.2 hr) hw

end BootManager

/-- What every start of a device leaves whose durable state is consistent. -/
theorem Consistent.ends {d : Device Note} (h : Consistent (View.of d.mem).durable) {e : Turn}
    (he : e.Sound) {w : RetainedRecord} {exit : BootExit} {b' : Board}
    (hb : BootManager.run (e.restart w d) = .done exit b') :
    ∃ b₁, BootManager.init (e.restart w d) = .done () b₁ ∧
      Trail (Lift Recovers) (e.restart w d).dev b₁.dev ∧
      BootManager.Booted (e.restart w d) b₁ ∧ Rested b₁.view ∧ Consistent b₁.durable ∧
      Trail (Lift (Launches Resting)) b₁.dev b'.dev ∧ BootManager.Ended b₁ b' exit := by
  have hinit : ∃ b₁, BootManager.init (e.restart w d) = .done () b₁ ∧
      BootManager.afterInit b₁ = .done exit b' := by
    unfold BootManager.run at hb
    simp only [Bind.bind] at hb
    cases hi : BootManager.init (e.restart w d) with
    | cut b₁ =>
      rw [hi] at hb
      cases hb
    | done u b₁ =>
      rw [hi] at hb
      exact ⟨b₁, rfl, hb⟩
  obtain ⟨b₁, hinit, hrun⟩ := hinit
  obtain ⟨htrail, hbooted, hrest, hc⟩ := h.rested he hinit
  have hends := BootManager.ends_afterInit hbooted hrest hc (htrail.faultless (he.restart w d))
  obtain ⟨htrail', hended⟩ := hends.of_done hrun
  exact ⟨b₁, hinit, htrail, hbooted, hrest, hc, htrail', hended⟩

/-- A start that is not interrupted comes to its end. -/
theorem Consistent.exists_boot {d : Device Note} (h : Consistent (View.of d.mem).durable) {e : Turn}
    (he : e.Calm) (w : RetainedRecord) :
    ∃ exit b, BootManager.run (e.restart w d) = .done exit b := by
  have hc : Consistent (e.restart w d).durable := h
  obtain ⟨exit, b, hrun, _⟩ := (BootManager.boots_run (he.sound.restart w d) hc).exists_done he.uncut
  exact ⟨exit, b, hrun⟩

theorem Trail.launches {d d' : Device Note} (h : Trail (Lift (Launches Resting)) d d')
    (hc : Consistent (View.of d.mem).durable) : Consistent (View.of d'.mem).durable :=
  h.durable (fun _ _ hv hs hc => hc.launches hv (fun _ hj => hj) hs) hc

/-- What a slot runs with: a valid image, which its record names, and a note that tells the
    application what the record says. -/
structure Handed (s : Slot) (b : Board) (r : BootSlotMetadata) : Prop where
  image : (BootImage.loadInfo b.mem (some s)).validationResult = .valid
  record : ∃ k, BootMetadata.load s b.mem = .valid k r
  version : r.imageVersion = (BootImage.loadInfo b.mem (some s)).header.softwareVersion
  state : (r.state = BootImageState.trial.code ∧ 0 < r.bootAttempts ∧
      r.bootAttempts ≤ maxTrialAttempts ∧ BootAppIf.getBootStatus b.retained = (.ok, .trial)) ∨
    (r.state = BootImageState.confirmed.code ∧
      BootAppIf.getBootStatus b.retained = (.ok, .normal))

/-- The attempts of a trial. -/
theorem BootMetadata.WellFormed.trial_attempts {r : BootSlotMetadata}
    (h : BootMetadata.WellFormed r) (hst : r.state = BootImageState.trial.code) :
    0 < r.bootAttempts ∧ r.bootAttempts ≤ maxTrialAttempts := by
  refine ⟨?_, h.bootAttempts⟩
  have hfields := h.fields
  unfold BootMetadata.fieldsValid at hfields
  have hne : ¬ r.bootAttempts = 0 := by
    intro hzero
    rw [if_neg fun h => absurd h.1 (by rw [hst]; decide), if_pos ⟨hst, .inl hzero⟩] at hfields
    cases hfields
  rw [BitVec.lt_def]
  have hnat : r.bootAttempts.toNat ≠ 0 := fun h => hne (BitVec.eq_of_toNat_eq h)
  exact Nat.pos_of_ne_zero hnat

/-- A slot that has been prepared has the next record of a trial, or is confirmed as it was. -/
theorem BootLifecycle.Prepared.durable {b b' : Board} {s : Slot} (h : Prepared b s b' true) :
    (∃ r next, b.durable.metadata s = .record r ∧ LaunchWrite r next ∧
      next.state = BootImageState.trial.code ∧ b'.durable =
        b.durable.setMetadata s (BootMetadata.completed s (r.sequence + 1) next)) ∨
    ∃ r, b.durable.metadata s = .record r ∧ r.state = BootImageState.confirmed.code ∧
      b'.durable = b.durable := by
  cases h with
  | attempt r next o hr hw hst hview =>
    refine .inl ⟨r, next, View.metadata_iff.2 ⟨o, hr⟩, hw, hst, ?_⟩
    show b'.view.durable = _
    rw [hview]
    exact View.durable_setMetadata rfl
  | confirmed r hr hs hdev =>
    refine .inr ⟨r, View.metadata_iff.2 hr, hs, ?_⟩
    show (View.of b'.dev.mem).durable = _
    rw [hdev]
    rfl

/-- A slot that has been prepared and told what it is can run. -/
theorem BootManager.Launched.handed {b b' : Board} {s : Slot} (hrec : Recovered b)
    (hc : Consistent b.durable) (hsel : slotOfTarget (target b) = some s)
    (h : Launched b s b' (.jumped s)) : ∃ r, Handed s b' r := by
  obtain ⟨r, hr, himage, hversion⟩ := hrec.good_of_priority hc (of_target hsel).2.1
  cases h with
  | jumped _ hprep hmirror _ hret =>
    obtain ⟨c, hc', himg, hver, hst⟩ : ∃ c, b'.durable.metadata s = .record c ∧
        b'.durable.image = b.durable.image ∧ c.imageVersion = r.imageVersion ∧
        (c.state = BootImageState.trial.code ∨ c.state = BootImageState.confirmed.code) := by
      rcases hprep.durable with ⟨r', next, hr', hw, hst, hd⟩ | ⟨r', hr', hst, hd⟩
      · obtain rfl := Register.Current.record.inj (hr.symm.trans hr')
        refine ⟨BootMetadata.completed s (r.sequence + 1) next, ?_, ?_, hw.image.1, .inl hst⟩
        · rw [hd, Durable.setMetadata_self]
        · rw [hd]
          rfl
      · obtain rfl := Register.Current.record.inj (hr.symm.trans hr')
        exact ⟨r, by rw [hd, hr], by rw [hd], rfl, .inr hst⟩
    have hview : b'.view.Metadata s c := View.metadata_iff.1 hc'
    have hram : b'.ram.lifecycle.metadata s = c := (hmirror s).record c hview
    have hnote := BootAppIf.getBootStatus_handover (l := b'.ram.lifecycle) (s := s)
    rw [hram, ← hret] at hnote
    have hvalid : BootLifecycle.imageValid b'.durable.image s = true := by rw [himg, himage]
    refine ⟨c, ?_, BootMetadata.load_iff.2 hview, ?_, ?_⟩
    · rw [← BootLifecycle.imageValid_view] at hvalid
      exact BootLifecycle.imageValid_iff.1 hvalid
    · rw [hver, ← hversion, BootLifecycle.version_view]
      unfold Durable.version
      rw [himg]
    · rcases hst with hst | hst
      · have hwf := (View.durable_valid b'.dev.mem).metadata s c hc'
        exact .inl ⟨hst, (hwf.trial_attempts hst).1, (hwf.trial_attempts hst).2, hnote.1 hst⟩
      · exact .inr ⟨hst, hnote.2 hst⟩

/-- A device that starts without a failing flash command is not stranded, whatever has been asked
    of it before and wherever it was interrupted: the boot does not end in the error state, and a
    slot that it jumps to has a valid image, the record of that image and a note that says what the
    record does. -/
theorem Endures.not_stranded {d : Device Note} (h : Endures (.reset d)) {e : Turn} (he : e.Sound)
    {w : RetainedRecord} {exit : BootExit} {b : Board}
    (hb : BootManager.run (e.restart w d) = .done exit b) :
    exit ≠ .error ∧ ∀ s, exit = .jumped s → ∃ r, Handed s b r := by
  obtain ⟨b₁, _, _, hbooted, _, hc, _, hended⟩ := Consistent.ends h.sound he hb
  have hrec := hbooted.recovered hc
  cases hended with
  | programming b₂ _ _ _ => exact ⟨fun h => (by cases h), fun s h => (by cases h)⟩
  | launched b₂ b₃ x exit hans halike hkeep _ hsel hlaunched =>
    have hrec₃ : Recovered b₃ := (hrec.answered hans).alike halike
    have hc₃ : Consistent b₃.durable := hkeep hc
    refine ⟨?_, fun s hs => ?_⟩
    · rintro rfl
      cases hlaunched
    · subst hs
      obtain rfl : s = x := by
        cases hlaunched
        rfl
      exact hlaunched.handed hrec₃ hc₃ hsel

/-- The retained block asks for nothing. -/
def RetainedRecord.Silent (w : RetainedRecord) : Prop :=
  w.magic ≠ requestMagic ∧ w.magic ≠ confirmMagic

theorem RetainedRecord.Silent.not_requested {b : Board} (h : b.retained.Silent) :
    BootManager.softwareRequested b = false ∧ BootManager.confirmRequest b = none := by
  have hmagic : ∀ magic, b.retained.magic ≠ magic → BootRequest.retainedRequest b magic = false := by
    intro magic hne
    unfold BootRequest.retainedRequest
    rw [beq_eq_false_iff_ne.2 hne]
    simp
  refine ⟨hmagic _ h.1, ?_⟩
  unfold BootManager.confirmRequest
  rw [hmagic _ h.2]
  rfl

/-- A device with a confirmed slot jumps after a software reset that asks for nothing. -/
theorem Guarded.jumps {d : Device Note} {s : Slot} (h : Guarded s (View.of d.mem).durable)
    {e : Turn} (he : e.Calm) (hsw : e.hw.srs.sw = true) (hpin : e.hw.requestPin = false)
    {w : RetainedRecord} (hw : w.Silent) :
    ∃ x b, BootManager.run (e.restart w d) = .done (.jumped x) b := by
  obtain ⟨exit, b, hrun⟩ := h.consistent.exists_boot he w
  obtain ⟨b₁, _, htrail, hbooted, _, hc₁, _, hended⟩ := h.consistent.ends he.sound hrun
  have hg : Guarded s b₁.durable := (Guarded.trail (e := (e.restart w d).dev) h
    (fun _ _ hg hv hd => hg.recovers hv hd) htrail).1
  have hsilent : b₁.retained.Silent := by
    rw [hbooted.retained]
    exact hw
  obtain ⟨hrequest, hconfirm⟩ := hsilent.not_requested
  have hhw : b₁.hw = e.hw := hbooted.hw
  cases hended with
  | programming b₂ hans _ hreason =>
    cases hans with
    | confirm x ok hx _ _ _ =>
      rw [hconfirm] at hx
      cases hx
    | none _ halike =>
      -- the confirmed slot would be selected
      have hrec : Recovered b₂ := (hbooted.recovered hc₁).alike halike
      have hg₂ : Guarded s b₂.durable := by
        unfold Board.durable
        rw [halike.view]
        exact hg
      obtain ⟨hfault, y, hy⟩ := hrec.exists_priority hg₂
      obtain ⟨x, hx, _⟩ := BootManager.exists_target hfault hy
      rcases hreason with hreq | hno
      · rw [hrequest, hhw, hpin] at hreq
        cases hreq
      · rw [hx, BootManager.slotOfTarget_targetOf] at hno
        cases hno
  | launched b₂ b₃ x exit hans halike _ _ _ hlaunched =>
    have hsw₃ : b₃.hw.srs.sw = true := by
      rw [halike.hw, hans.steady.hw, hhw, hsw]
    cases hlaunched with
    | reset hno _ _ => exact absurd (hsw₃.symm.trans hno) (by decide)
    | jumped _ _ _ _ _ => exact ⟨x, b, hrun⟩

/-- A software reset. -/
def Turn.softwareReset : Turn :=
  ⟨[], { Hardware.powerOn with srs := { Hardware.powerOn.srs with por := false, sw := true } }⟩

theorem Turn.calm_softwareReset : Turn.softwareReset.Calm :=
  ⟨fun _ h => (by cases h), fun _ h => (by cases h)⟩

/-- After slot A has been commissioned the device jumps. -/
theorem Endures.not_stranded_commissioned : ∃ d x b r,
    BootManager.run (Turn.softwareReset.restart .cleared d) = .done (.jumped x) b ∧
    Handed x b r := by
  obtain ⟨b₀, hb₀, hactive, hj, hr, hi⟩ := exists_commissioned_server
  obtain ⟨⟨act, hsession⟩, hc⟩ := hb₀.sound
  obtain rfl : act = some .a := hsession.active.symm.trans hactive
  obtain ⟨k, j, hj⟩ := hj
  obtain ⟨k', r, hr, hst⟩ := hr
  have himage : BootLifecycle.imageValid b₀.durable.image .a = true := by
    rw [← BootLifecycle.imageValid_view]
    exact BootLifecycle.imageValid_iff.2 hi
  have hguarded := hsession.guarded hc (BootJournal.loadLatest_iff.1 ⟨k, hj⟩)
    (BootMetadata.load_iff.1 ⟨k', hr⟩) hst himage
  have he := Turn.calm_quiet
  have hd : Endures (.reset ((Activity.request []).run (Turn.quiet.on b₀)).state.dev) :=
    .interrupt (.request []) Turn.quiet he.sound hb₀ (Activity.request_ne_boot [])
  have hruns := Activity.runs_serve (Activity.request_ne_boot []) (hsession.on Turn.quiet)
    (he.sound.on b₀) hc
  have hg := (Guarded.trail (e := (Turn.quiet.on b₀).dev) hguarded
    (fun _ _ hg hv hs => hg.serves hv hs) hruns.state_trail).1
  obtain ⟨x, b, hrun⟩ := hg.jumps Turn.calm_softwareReset rfl rfl
    (w := .cleared) ⟨by decide, by decide⟩
  obtain ⟨r, hr⟩ := (hd.not_stranded Turn.calm_softwareReset.sound hrun).2 x rfl
  exact ⟨_, x, b, r, hrun, hr⟩
