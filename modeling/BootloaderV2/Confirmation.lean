import BootloaderV2.Acknowledged

/-!
# A trial and its confirmation

A boot starts a trial, the application finds itself healthy and asks for its confirmation, and the
next boot answers.  `BootManager_Init` ends exhausted trials before `CHECK_REQUEST` is reached, so
the confirmation of the last attempt comes too late.
-/

open BootConfig NorFlash CrashM TwoCopy

/-- Slot `s` is the target of a finished transaction, and its record is that of a trial. -/
structure OnTrial (s : Slot) (r : BootSlotMetadata) (mem : Nat → Byte) : Prop where
  consistent : Consistent (View.of mem).durable
  journal : ∃ j, (View.of mem).durable.journal = .record j ∧
    j.state = BootUpdateState.idle.code ∧ j.target = some s
  record : (View.of mem).durable.metadata s = .record r
  state : r.state = BootImageState.trial.code

namespace OnTrial

variable {s : Slot} {r : BootSlotMetadata} {mem : Nat → Byte}

theorem attempts_le (h : OnTrial s r mem) : r.bootAttempts ≤ maxTrialAttempts :=
  (((View.durable_valid mem).metadata s r h.record).trial_attempts h.state).2

/-- The image is the one that the record names. -/
theorem good (h : OnTrial s r mem) : (View.of mem).durable.Good s r := by
  obtain ⟨j, hj, hst, ht⟩ := h.journal
  obtain ⟨c, hc, _, hgood, _⟩ := (h.consistent.idle j s hj ht hst).installed
  obtain rfl := Register.Current.record.inj (hc.symm.trans h.record)
  exact hgood

/-- The other slot has no record, or is confirmed with an image of a lower version. -/
theorem other (h : OnTrial s r mem) : (View.of mem).durable.metadata s.other = .unset ∨
    (View.of mem).durable.Confirmed s.other ∧
      (View.of mem).durable.version s.other < (View.of mem).durable.version s := by
  obtain ⟨j, hj, hst, ht⟩ := h.journal
  have hi := h.consistent.idle j s hj ht hst
  cases ha : j.active with
  | none => exact .inl (hi.unknown ha)
  | some x =>
    have hwf := (View.durable_valid mem).journal j hj
    obtain rfl := hwf.active_ne_target ha ht
    have hconf := hi.active _ ha
    obtain ⟨_, _, _, hgood⟩ := hconf
    refine .inr ⟨hi.active _ ha, ?_⟩
    -- the image was accepted because its version is the greater one
    have hpublished := hi.publishes
    unfold Durable.Publishes at hpublished
    rw [ht] at hpublished
    have hversion := (BootImageInstall.published_valid hpublished).2
    have haccepts := hi.accepts
    unfold Durable.Accepts BootImageInstall.accepted at haccepts
    rw [ha, ht] at haccepts
    have hvalid : (BootImage.loadInfo (View.of mem).durable.image (some s.other)).valid = true :=
      (BootImage.loadInfo_of_valid (BootLifecycle.imageValid_iff.1 hgood.1)).1
    unfold Durable.version
    rw [hversion]
    split at haccepts
    · cases haccepts
    split at haccepts
    · cases haccepts
    dsimp only at haccepts
    rw [if_pos (show (some s.other).isSome = true from rfl), if_pos hvalid,
      BootVersion.compare_eq] at haccepts
    split at haccepts
    · cases haccepts
    split at haccepts
    · assumption
    · cases haccepts

/-- Only the slot on trial can have exhausted it. -/
theorem not_exhausted (h : OnTrial s r mem) {x : Slot} {c : BootSlotMetadata}
    (hc : (View.of mem).Metadata x c) (hx : BootLifecycle.Exhausted c) : x = s ∧ c = r := by
  have hrec := View.metadata_iff.2 hc
  by_cases hxs : x = s
  · subst hxs
    exact ⟨rfl, Register.Current.record.inj (hrec.symm.trans h.record)⟩
  · rw [Slot.eq_other_of_ne hxs] at hrec
    rcases h.other with hu | ⟨⟨c', hc', hst, _⟩, _⟩
    · exact absurd (hu.symm.trans hrec) (by simp)
    · obtain rfl := Register.Current.record.inj (hc'.symm.trans hrec)
      exact absurd (hst.symm.trans hx.1) (by decide)

/-- While an attempt is left there is nothing to recover. -/
theorem rested (h : OnTrial s r mem) (ha : r.bootAttempts < maxTrialAttempts) :
    Rested (View.of mem) := by
  obtain ⟨j, hj, hst, _⟩ := h.journal
  have hunique : ∀ j', (View.of mem).Journal j' → j' = j := fun j' hj' =>
    Register.Current.record.inj ((View.journal_iff.2 hj').symm.trans hj)
  refine ⟨fun j' hj' => .inl (hunique j' hj' ▸ hst), fun j' x hj' hab => ?_, fun j' _ x c hc hex => ?_⟩
  · rw [hunique j' hj', hst] at hab
    exact absurd hab (by decide)
  · obtain ⟨_, rfl⟩ := h.not_exhausted hc hex
    have hle : maxTrialAttempts.toNat ≤ c.bootAttempts.toNat := hex.2
    have hlt : c.bootAttempts.toNat < maxTrialAttempts.toNat := ha
    omega

end OnTrial

/-! ## The boot that starts the trial -/

/-- A slot that is started on trial is the target of a finished transaction. -/
theorem BootManager.Launched.onTrial {b b' : Board} {s : Slot} {r : BootSlotMetadata}
    (hrec : Recovered b) (hc : Consistent b.durable) (hc' : Consistent b'.durable)
    (hsel : slotOfTarget (target b) = some s) (h : Launched b s b' (.jumped s))
    (hr : b'.durable.metadata s = .record r) (hst : r.state = BootImageState.trial.code) :
    OnTrial s r b'.mem := by
  cases h with
  | jumped _ hprep _ _ _ =>
    rcases hprep.durable with ⟨c, next, hcr, hw, _, hd⟩ | ⟨c, hcr, hcs, hd⟩
    · have hjournal : b'.durable.journal = b.durable.journal := by
        rw [hd]
        rfl
      obtain ⟨_, j, hm, hrest⟩ := hrec.exists_resting (View.metadata_iff.1 hcr)
      obtain ⟨t, ht⟩ := hm.wellFormed.exists_target
      have hnot : ¬ b.durable.Confirmed s := by
        rintro ⟨c', hc', hcs, _⟩
        obtain rfl := Register.Current.record.inj (hcr.symm.trans hc')
        exact hw.not_confirmed hcs
      have hidle : j.state = BootUpdateState.idle.code := by
        refine hrest.resolve_right fun habort => ?_
        -- only the confirmed active slot of an aborted transaction is bootable
        have hboot := (scanned_of_priority (of_target hsel).2.1).1
        have ha := Recovered.bootable_aborted hm habort hboot
        rcases (hc.busy j t hm.durable ht (by rw [habort]; decide)).active s ha with hs | hs
        · exact hnot hs
        · exact absurd (hs.2.2.1.symm.trans hcr) (by simp)
      have hts : t = s := by
        by_contra hne
        have hi := hc.idle j t hm.durable ht hidle
        have hso : s = t.other := Slot.eq_other_of_ne fun h => hne h.symm
        cases ha : j.active with
        | none => exact absurd ((hi.unknown ha).symm.trans (hso ▸ hcr)) (by simp)
        | some x =>
          have hx := hm.wellFormed.active_ne_target ha ht
          exact hnot (hso ▸ hx ▸ hi.active x ha)
      exact ⟨hc', ⟨j, hjournal.trans hm.durable, hidle, hts ▸ ht⟩, hr, hst⟩
    · rw [hd, hcr] at hr
      obtain rfl := Register.Current.record.inj hr
      exact absurd (hcs.symm.trans hst) (by decide)

/-- What a jump leaves on flash. -/
theorem Consistent.jumped {d : Device Note} (h : Consistent (View.of d.mem).durable) {e : Turn}
    (he : e.Sound) {w : RetainedRecord} {s : Slot} {b : Board}
    (hb : BootManager.run (e.restart w d) = .done (.jumped s) b) :
    Consistent b.durable ∧ ∃ r, Handed s b r ∧
      (r.state = BootImageState.trial.code → OnTrial s r b.mem) := by
  obtain ⟨b₁, _, _, hbooted, _, hc, htrail, hended⟩ := h.ends he hb
  have hc' : Consistent b.durable := htrail.launches hc
  refine ⟨hc', ?_⟩
  cases hended with
  | launched b₂ b₃ x exit hans halike hkeep _ hsel hlaunched =>
    have hrec : Recovered b₃ := ((hbooted.recovered hc).answered hans).alike halike
    have hc₃ : Consistent b₃.durable := hkeep hc
    obtain rfl : s = x := by
      cases hlaunched
      rfl
    obtain ⟨r, hr⟩ := hlaunched.handed hrec hc₃ hsel
    refine ⟨r, hr, fun hst => ?_⟩
    have hrecord := View.metadata_iff.2 (BootMetadata.load_iff.1 hr.record)
    exact hlaunched.onTrial hrec hc₃ hc' hsel hrecord hst

/-! ## The start of the boot that answers -/

namespace OnTrial

variable {s : Slot} {r : BootSlotMetadata} {d : Device Note} {e : Turn} {w : RetainedRecord}
  {b : Board}

/-- While an attempt is left the start changes nothing. -/
theorem init_unchanged (h : OnTrial s r d.mem) (ha : r.bootAttempts < maxTrialAttempts)
    (hb : BootManager.init (e.restart w d) = .done () b) : b.mem = d.mem := by
  have hrest : Rested (e.restart w d).view := h.rested ha
  have hstill : (BootManager.init (e.restart w d)).state.dev = (e.restart w d).dev := by
    have hruns := hrest.runs_init (R := Lift fun _ _ => False)
    exact hruns.state_trail.eq_of_stuck fun _ hs => hs
  rw [hb] at hstill
  have hmem : b.mem = (e.restart w d).mem := congrArg Device.mem hstill
  exact hmem

/-- The durable state while the trial is being ended: as it was, or with the image marked as
    invalid. -/
def Ending (s : Slot) (v₀ v : Durable) : Prop :=
  v = v₀ ∨ ∃ c, c.state = BootImageState.invalid.code ∧ v = v₀.setMetadata s c

theorem Ending.journal {v₀ v : Durable} (h : Ending s v₀ v) : v.journal = v₀.journal := by
  rcases h with rfl | ⟨c, _, rfl⟩
  · rfl
  · rfl

theorem ending_recovers {v v' : Durable} (h : OnTrial s r d.mem) (hc : Consistent v)
    (hv : Ending s (View.of d.mem).durable v) (hd : Recovers v v') :
    Ending s (View.of d.mem).durable v' := by
  obtain ⟨j, hj, hst, ht⟩ := h.journal
  rw [← hv.journal] at hj
  have hnot : j.state ≠ BootUpdateState.pendingActivation.code := by
    rw [hst]
    decide
  cases hd.settles hc hj ht (.inr hst) with
  | handOff _ hpending _ _ => exact absurd hpending hnot
  | record _ _ hpending => exact absurd hpending hnot
  | publish _ hpending _ _ => exact absurd hpending hnot
  | fail x old next hold htrial hattempts hnext =>
    rcases hv with rfl | ⟨c, hcs, rfl⟩
    · obtain ⟨rfl, _⟩ := h.not_exhausted (View.metadata_iff.1 hold) ⟨htrial, hattempts⟩
      exact .inr ⟨next, hnext, rfl⟩
    · -- the trial has been ended, and there is no other one
      by_cases hxs : x = s
      · subst hxs
        rw [Durable.setMetadata_self] at hold
        obtain rfl := Register.Current.record.inj hold
        exact absurd (hcs.symm.trans htrial) (by decide)
      · rw [Durable.setMetadata_of_ne hxs] at hold
        exact absurd (h.not_exhausted (View.metadata_iff.1 hold) ⟨htrial, hattempts⟩).1 hxs

/-- After the last attempt the start ends the trial, and changes nothing else. -/
theorem init_failed (h : OnTrial s r d.mem) (ha : r.bootAttempts = maxTrialAttempts)
    (he : e.Sound) (hb : BootManager.init (e.restart w d) = .done () b) :
    ∃ c, c.state = BootImageState.invalid.code ∧
      b.durable = (View.of d.mem).durable.setMetadata s c := by
  obtain ⟨htrail, _, hrest, hc⟩ := h.consistent.rested he hb
  have hend : Consistent b.durable ∧ Ending s (View.of d.mem).durable b.durable :=
    htrail.durable (P := fun v => Consistent v ∧ Ending s (View.of d.mem).durable v)
      (fun _ _ hv hs hd => ⟨hd.1.recovers hv hs, h.ending_recovers hd.1 hd.2 hs⟩)
      ⟨h.consistent, .inl rfl⟩
  refine hend.2.resolve_left fun hsame => ?_
  have hr : b.durable.metadata s = .record r := by rw [hsame, h.record]
  have hspent : BootLifecycle.Exhausted r := ⟨h.state, by rw [ha]; exact BitVec.le_refl _⟩
  exact hrest.unspent hc s r (View.metadata_iff.1 hr) hspent

end OnTrial

/-! ## The answer -/

namespace BootManager

variable {b b' : Board} {s : Slot} {r : BootSlotMetadata}

/-- The request of an application that was built for slot `s`. -/
theorem confirmRequest_record (hsw : b.hw.srs.sw = true)
    (hw : b.retained = AppBootRequest.record confirmMagic s.code) :
    confirmRequest b = some s ∧ softwareRequested b = false := by
  constructor
  · unfold confirmRequest BootRequest.retainedRequest BootRequest.getRequestedSlot
    rw [hsw, hw]
    cases s <;> decide
  · unfold softwareRequested BootRequest.retainedRequest
    rw [hsw, hw]
    cases s <;> decide

/-- A slot on trial with a valid image is the one that a confirmation is granted for. -/
theorem choice_of_trial (hf : b.ram.lifecycle.storageFault = false)
    (hst : stateOf b.ram.lifecycle s = BootImageState.trial.code)
    (hvalid : (BootImage.loadInfo b.mem (some s)).valid = true)
    (hother : BootPolicy.lifecyclePriority (stateOf b.ram.lifecycle s.other) ≤ 1) :
    BootLifecycle.choice b = BootLifecycle.targetOf s := by
  have hchoice : BootLifecycle.choice b = BootPolicy.selectLifecycle
      (BootImage.loadInfo b.mem (some .a)) (stateOf b.ram.lifecycle .a)
      (BootImage.loadInfo b.mem (some .b)) (stateOf b.ram.lifecycle .b) := by
    unfold BootLifecycle.choice BootLifecycle.selected
    rw [if_neg (by simp [hf])]
    rfl
  have hthree : BootPolicy.lifecyclePriority BootImageState.trial.code = 3 := by decide
  rw [hchoice]
  unfold BootPolicy.selectLifecycle
  cases s with
  | a =>
    rw [hst, if_pos hvalid, hthree]
    dsimp only [Slot.other] at hother
    generalize BootPolicy.lifecyclePriority (stateOf b.ram.lifecycle .b) = p at hother
    by_cases hb : (BootImage.loadInfo b.mem (some .b)).valid = true
    · rw [if_pos hb]
      by_cases hp : p = 0
      · simp [hp, BootLifecycle.targetOf]
      · have hlt : p < 3 := by omega
        simp [hp, hlt, BootLifecycle.targetOf]
    · simp [hb, BootLifecycle.targetOf]
  | b =>
    rw [hst, if_pos hvalid, hthree]
    dsimp only [Slot.other] at hother
    generalize BootPolicy.lifecyclePriority (stateOf b.ram.lifecycle .a) = p at hother
    by_cases ha : (BootImage.loadInfo b.mem (some .a)).valid = true
    · rw [if_pos ha]
      by_cases hp : p = 0
      · simp [hp, BootLifecycle.targetOf]
      · have hlt : p < 3 := by omega
        have hnot : ¬ 3 < p := by omega
        simp [hp, hlt, hnot, BootLifecycle.targetOf]
    · simp [ha, BootLifecycle.targetOf]

end BootManager

/-- The other slot weighs no more than a confirmed one, as long as its record stays. -/
theorem OnTrial.other_priority {b b' : Board} {s : Slot} {r : BootSlotMetadata}
    (h : OnTrial s r b.mem) (hl : BootLifecycle.Mirror b')
    (hsame : b'.durable.metadata s.other = b.durable.metadata s.other) :
    BootPolicy.lifecyclePriority (BootManager.stateOf b'.ram.lifecycle s.other) ≤ 1 := by
  rcases h.other with hu | ⟨⟨c, hc, hcs, _⟩, _⟩
  · rw [BootManager.stateOf_unset hl (hsame.trans hu)]
    decide
  · rw [BootManager.stateOf_record hl (hsame.trans hc), hcs]
    decide

theorem OnTrial.priority_other {b b' : Board} {s : Slot} {r : BootSlotMetadata}
    (h : OnTrial s r b.mem) (hl : BootLifecycle.Mirror b')
    (hsame : b'.durable.metadata s.other = b.durable.metadata s.other) :
    BootManager.priority b' s.other ≤ 1 := by
  unfold BootManager.priority
  split
  · exact h.other_priority hl hsame
  · exact Nat.zero_le 1

namespace OnTrial

variable {s : Slot} {r : BootSlotMetadata} {b b' : Board}

/-- The record that a granted confirmation writes. -/
structure ConfirmedAfter (s : Slot) (r : BootSlotMetadata) (d : Durable) (c : BootSlotMetadata) :
    Prop where
  record : d.metadata s = .record c
  state : c.state = BootImageState.confirmed.code
  attempts : c.bootAttempts = 0
  boots : c.successfulBoots = r.successfulBoots + 1

/-- A recovered boot grants the confirmation that is asked for slot `s`. -/
theorem granted {ok : Bool} (h : OnTrial s r b.mem) (hrec : Recovered b)
    (hc : BootLifecycle.Confirmation b s b' ok) :
    ∃ c, ConfirmedAfter s r b'.durable c ∧
      b'.durable = b.durable.setMetadata s c ∧ c.imageVersion = r.imageVersion := by
  have hr : b.view.Metadata s r := View.metadata_iff.1 h.record
  cases hc with
  | written r' o hr' hs hchoice hview =>
    obtain rfl := View.Metadata.unique hr ⟨o, hr'⟩
    have hd : b'.durable = b.durable.setMetadata s (BootMetadata.completed s (r.sequence + 1)
        (BootMetadata.stateRecord r .confirmed b.ram.lifecycle.currentResetReason.code
          BootLifecycleResult.confirmed.code)) := by
      show b'.view.durable = _
      rw [hview]
      exact View.durable_setMetadata rfl
    refine ⟨_, ⟨?_, rfl, rfl, rfl⟩, hd, rfl⟩
    rw [hd, Durable.setMetadata_self]
  | already r' hr' hs hdev =>
    obtain rfl := View.Metadata.unique hr hr'
    exact absurd (hs.symm.trans h.state) (by decide)
  | refused hdev hno =>
    -- the selection is for the slot on trial
    obtain ⟨hfault, _⟩ := hrec.exists_resting hr
    have hgood : BootLifecycle.imageValid b.durable.image s = true := h.good.1
    rw [← BootLifecycle.imageValid_view] at hgood
    have hvalid := (BootImage.loadInfo_of_valid (BootLifecycle.imageValid_iff.1 hgood)).1
    have hst := (BootManager.stateOf_record hrec.lifecycle h.record).trans h.state
    have hchoice := BootManager.choice_of_trial hfault hst hvalid (h.other_priority hrec.lifecycle rfl)
    exact absurd hchoice ((hno r hr).2 h.state)

/-- The boot that has granted the confirmation selects the slot. -/
theorem target_granted {c : BootSlotMetadata} (h : OnTrial s r b.mem) (hrec : Recovered b')
    (hc : ConfirmedAfter s r b'.durable c) (hd : b'.durable = b.durable.setMetadata s c) :
    BootManager.slotOfTarget (BootManager.target b') = some s := by
  have himg : b'.durable.image = b.durable.image := by
    rw [hd]
    rfl
  have hr := View.metadata_iff.1 hc.record
  obtain ⟨hfault, j, hm, _⟩ := hrec.exists_resting hr
  obtain ⟨i, hi, hidle, _⟩ := h.journal
  have hij : i = j := by
    have hboth : b'.durable.journal = .record i := by
      rw [hd]
      exact hi
    exact Register.Current.record.inj (hboth.symm.trans hm.durable)
  have hvalid : BootLifecycle.imageValid b'.durable.image s = true := by
    rw [himg]
    exact h.good.1
  have hpos := hrec.priority_pos hm hfault (.inl (hij ▸ hidle)) hr hc.state hvalid
  obtain ⟨t, ht, hle⟩ := BootManager.exists_target hfault hpos
  have hslot : BootManager.slotOfTarget (BootManager.target b') = some t := by
    rw [ht, BootManager.slotOfTarget_targetOf]
  rw [hslot]
  by_contra hne
  have hts : t = s.other := Slot.eq_other_of_ne fun h => hne (congrArg some h)
  subst hts
  -- the other slot can at most be confirmed too, and its version is the lower one
  have hother : b'.durable.metadata s.other = b.durable.metadata s.other := by
    rw [hd, Durable.setMetadata_of_ne s.ne_other.symm]
  have hle_one := h.priority_other hrec.lifecycle hother
  have heq : BootManager.priority b' s.other.other = BootManager.priority b' s.other := by
    rw [Slot.other_other]
    omega
  have hversion := BootManager.version_of_target hslot heq
  rw [Slot.other_other] at hversion
  have hscan := (BootManager.scanned_of_priority hpos).2.2.1
  have hpos' : 0 < BootManager.priority b' s.other := by omega
  have hscan' := (BootManager.scanned_of_priority hpos').2.2.1
  rw [hscan, hscan', BootLifecycle.version_view, BootLifecycle.version_view] at hversion
  unfold Durable.version at hversion
  rw [himg] at hversion
  rcases h.other with hu | ⟨_, hlt⟩
  · have hzero : BootManager.priority b' s.other = 0 := by
      unfold BootManager.priority
      rw [BootManager.stateOf_unset hrec.lifecycle (hother.trans hu)]
      split
      · decide
      · rfl
    omega
  · have hnat : (b.durable.version s.other).toNat < (b.durable.version s).toNat := hlt
    unfold Durable.version at hnat
    omega

end OnTrial

namespace BootManager

variable {b b₁ b₂ b' : Board} {s : Slot} {exit : BootExit}

/-- The answer to the request of an application that was built for slot `s`. -/
theorem Answered.confirmation (h : Answered b₁ b₂) (hc : confirmRequest b₁ = some s) :
    ∃ ok, BootLifecycle.Confirmation b₁ s b₂ ok := by
  cases h with
  | none hn _ =>
    rw [hc] at hn
    cases hn
  | confirm x ok hx _ _ hconf =>
    rw [hc] at hx
    obtain rfl := Option.some.inj hx
    exact ⟨ok, hconf⟩

/-- A confirmed slot is started as it is. -/
theorem Launched.confirmed {c : BootSlotMetadata} (h : Launched b s b' exit)
    (hsw : b.hw.srs.sw = true) (hr : b.durable.metadata s = .record c)
    (hst : c.state = BootImageState.confirmed.code) :
    exit = .jumped s ∧ b'.durable = b.durable := by
  cases h with
  | reset hno _ _ => exact absurd (hsw.symm.trans hno) (by decide)
  | jumped _ hprep _ _ _ =>
    refine ⟨rfl, ?_⟩
    rcases hprep.durable with ⟨r, _, hr', hw, _, _⟩ | ⟨_, _, _, hd⟩
    · obtain rfl := Register.Current.record.inj (hr.symm.trans hr')
      exact absurd hst hw.not_confirmed
    · exact hd

end BootManager

namespace OnTrial

variable {s : Slot} {r : BootSlotMetadata} {b b₁ b' : Board} {exit : BootExit}

/-- The confirmation of a trial with an attempt left. -/
theorem confirmed_of_ended (h : OnTrial s r b₁.mem) (hrec : Recovered b₁)
    (hsw : b₁.hw.srs.sw = true) (hpin : b₁.hw.requestPin = false)
    (hw : b₁.retained = AppBootRequest.record confirmMagic s.code)
    (hended : BootManager.Ended b₁ b' exit) :
    exit = .jumped s ∧ ∃ c, ConfirmedAfter s r b'.durable c := by
  obtain ⟨hconfirm, hrequest⟩ := BootManager.confirmRequest_record hsw hw
  have hanswer : ∀ b₂, BootManager.Answered b₁ b₂ → ∃ c, ConfirmedAfter s r b₂.durable c ∧
      BootManager.slotOfTarget (BootManager.target b₂) = some s := by
    intro b₂ hans
    obtain ⟨ok, hconf⟩ := hans.confirmation hconfirm
    obtain ⟨c, hc, hd, _⟩ := h.granted hrec hconf
    exact ⟨c, hc, h.target_granted (hrec.answered hans) hc hd⟩
  cases hended with
  | programming b₂ hans _ hreason =>
    obtain ⟨c, _, hsel⟩ := hanswer b₂ hans
    rcases hreason with hreq | hno
    · rw [hrequest, hpin] at hreq
      cases hreq
    · exact absurd (hsel.symm.trans hno) (by simp)
  | launched b₂ b₃ x exit hans halike _ _ hsel hlaunched =>
    obtain ⟨c, hc, hsel₂⟩ := hanswer b₂ hans
    rw [BootManager.target_congr halike] at hsel
    obtain rfl := Option.some.inj (hsel₂.symm.trans hsel)
    have hd : b₃.durable = b₂.durable := BootManager.durable_of_dev halike.dev
    have hsw₃ : b₃.hw.srs.sw = true := by rw [halike.hw, hans.steady.hw, hsw]
    obtain ⟨hexit, hsame⟩ := hlaunched.confirmed hsw₃ (hd ▸ hc.record) hc.state
    exact ⟨hexit, c, by rw [hsame, hd]; exact hc⟩

/-- The slot that a failed trial falls back to, if there is one. -/
theorem fallback_cases (h : OnTrial s r b.mem) :
    (b.durable.metadata s.other = .unset ∧ b.durable.fallback s = none) ∨
      (b.durable.Confirmed s.other ∧ b.durable.fallback s = some s.other) := by
  unfold Durable.fallback
  rcases h.other with hu | ⟨⟨o, ho, hos, hgood⟩, _⟩
  · have hunset : b.durable.metadata s.other = .unset := hu
    rw [hunset]
    exact .inl ⟨rfl, rfl⟩
  · have hrecord : b.durable.metadata s.other = .record o := ho
    rw [hrecord]
    exact .inr ⟨⟨o, hrecord, hos, hgood⟩, if_pos ⟨hos, hgood.1⟩⟩

/-- What the boot that ends a trial selects. -/
theorem target_failed {c : BootSlotMetadata} (h : OnTrial s r b.mem) (hrec : Recovered b')
    (hst : c.state = BootImageState.invalid.code) (hd : b'.durable = b.durable.setMetadata s c) :
    BootManager.slotOfTarget (BootManager.target b') =
      b.durable.fallback s := by
  have hself : b'.durable.metadata s = .record c := by rw [hd, Durable.setMetadata_self]
  have hother : b'.durable.metadata s.other = b.durable.metadata s.other := by
    rw [hd, Durable.setMetadata_of_ne s.ne_other.symm]
  have hzero : BootManager.priority b' s = 0 := by
    unfold BootManager.priority
    rw [BootManager.stateOf_record hrec.lifecycle hself, hst]
    split
    · decide
    · rfl
  rcases h.fallback_cases with ⟨hu, hnone⟩ | ⟨⟨o, ho, hos, hgood⟩, hsome⟩
  · rw [hnone]
    rcases BootManager.target_cases b' with ⟨ht, _⟩ | ⟨t, ht, _, hpos, _⟩
    · rw [ht]
      rfl
    · -- neither slot weighs anything
      have hts : t = s.other := by
        refine Slot.eq_other_of_ne fun hts => ?_
        rw [hts, hzero] at hpos
        exact Nat.lt_irrefl 0 hpos
      rw [hts] at hpos
      unfold BootManager.priority at hpos
      rw [BootManager.stateOf_unset hrec.lifecycle (hother.trans hu)] at hpos
      split at hpos
      · exact absurd hpos (by decide)
      · exact absurd hpos (Nat.lt_irrefl 0)
  · rw [hsome]
    have hor := View.metadata_iff.1 (hother.trans ho)
    obtain ⟨hfault, j, hm, _⟩ := hrec.exists_resting hor
    obtain ⟨i, hi, hidle, _⟩ := h.journal
    have hij : i = j := by
      have hboth : b'.durable.journal = .record i := by
        rw [hd]
        exact hi
      exact Register.Current.record.inj (hboth.symm.trans hm.durable)
    have hvalid : BootLifecycle.imageValid b'.durable.image s.other = true := by
      rw [hd]
      exact hgood.1
    have hpos := hrec.priority_pos hm hfault (.inl (hij ▸ hidle)) hor hos hvalid
    have hlt : BootManager.priority b' s.other.other < BootManager.priority b' s.other := by
      rw [Slot.other_other, hzero]
      exact hpos
    rw [BootManager.target_of_lt hfault hlt, BootManager.slotOfTarget_targetOf]

/-- The boot that has ended a trial goes on with the slot to fall back to. -/
theorem ended_failed {c : BootSlotMetadata} (h : OnTrial s r b.mem) (hrec : Recovered b₁)
    (hst : c.state = BootImageState.invalid.code) (hd : b₁.durable = b.durable.setMetadata s c)
    (hended : BootManager.Ended b₁ b' exit) :
    b'.durable = b₁.durable ∧ exit =
      BootManager.exitFor (BootManager.softwareRequested b₁ || b₁.hw.requestPin) b₁.hw.srs.sw
        (b.durable.fallback s) := by
  have hno : ∀ x o, b₁.durable.metadata x = .record o → o.state ≠ BootImageState.trial.code := by
    intro x o hx
    rw [hd] at hx
    by_cases hxs : x = s
    · rw [hxs, Durable.setMetadata_self] at hx
      obtain rfl := Register.Current.record.inj hx
      rw [hst]
      decide
    · rw [Durable.setMetadata_of_ne hxs, Slot.eq_other_of_ne hxs] at hx
      rcases h.other with hu | ⟨⟨o', ho', hos, _⟩, _⟩
      · exact absurd (hu.symm.trans hx) (by simp)
      · obtain rfl := Register.Current.record.inj (ho'.symm.trans hx)
        rw [hos]
        decide
  have hsel : ∀ b₂, BootManager.Answered b₁ b₂ → b₂.durable = b₁.durable ∧
      BootManager.slotOfTarget (BootManager.target b₂) =
        b.durable.fallback s := by
    intro b₂ hans
    have hsame := hans.unchanged hno
    exact ⟨hsame, h.target_failed (hrec.answered hans) hst (hsame.trans hd)⟩
  cases hended with
  | programming b₂ hans halike hreason =>
    obtain ⟨hsame, hslot⟩ := hsel b₂ hans
    refine ⟨(BootManager.durable_of_dev halike.dev).trans hsame, ?_⟩
    rcases hreason with hreq | hnone
    · rw [hreq]
      unfold BootManager.exitFor
      split
      · rfl
      · rfl
    · rw [← hslot, hnone]
      rfl
  | launched b₂ b₃ x exit hans halike _ hreq hx hlaunched =>
    obtain ⟨hsame, hslot⟩ := hsel b₂ hans
    rw [BootManager.target_congr halike] at hx
    rw [← hslot, hx, hreq]
    have hd₃ : b₃.durable = b₁.durable := (BootManager.durable_of_dev halike.dev).trans hsame
    have hsw : b₃.hw.srs.sw = b₁.hw.srs.sw := by rw [halike.hw, hans.steady.hw]
    -- the slot to fall back to is confirmed
    obtain ⟨o, ho, hos⟩ : ∃ o, b₃.durable.metadata x = .record o ∧
        o.state = BootImageState.confirmed.code := by
      rw [hx] at hslot
      rcases h.fallback_cases with ⟨_, hnone⟩ | ⟨⟨o, ho, hos, _⟩, hsome⟩
      · rw [hnone] at hslot
        cases hslot
      · rw [hsome] at hslot
        obtain rfl := Option.some.inj hslot
        refine ⟨o, ?_, hos⟩
        rw [hd₃, hd, Durable.setMetadata_of_ne s.ne_other.symm]
        exact ho
    cases hlaunched with
    | reset hno _ hret =>
      rename_i hdev
      refine ⟨(BootManager.durable_of_dev hdev).trans hd₃, ?_⟩
      rw [← hsw, hno]
      rfl
    | jumped hyes hprep hmirror hreason hret =>
      have hkeep := (BootManager.Launched.jumped hyes hprep hmirror hreason hret).confirmed hyes ho hos
      refine ⟨hkeep.2.trans hd₃, ?_⟩
      rw [← hsw, hyes]
      rfl

end OnTrial

/-! ## Another attempt -/

namespace BootManager

theorem Booted.confirmRequest {b b₁ : Board} (h : Booted b b₁) :
    confirmRequest b₁ = BootManager.confirmRequest b := by
  unfold BootManager.confirmRequest BootRequest.retainedRequest
  rw [h.hw, h.retained]

theorem Booted.softwareRequested {b b₁ : Board} (h : Booted b b₁) :
    softwareRequested b₁ = BootManager.softwareRequested b := by
  unfold BootManager.softwareRequested BootRequest.retainedRequest
  rw [h.hw, h.retained]

theorem Answered.alike_of_none {b b₂ : Board} (h : Answered b b₂) (hnone : confirmRequest b = .none) :
    b.Alike b₂ := by
  cases h with
  | none _ halike => exact halike
  | confirm x _ hx _ _ _ =>
    rw [hnone] at hx
    cases hx

end BootManager

namespace OnTrial

variable {s : Slot} {r : BootSlotMetadata} {b : Board} {d : Device Note} {e : Turn}
  {w : RetainedRecord} {exit : BootExit}

/-- A slot on trial goes before the other one. -/
theorem target (h : OnTrial s r b.mem) (hrec : Recovered b) :
    BootManager.target b = BootLifecycle.targetOf s := by
  obtain ⟨j, hj, hidle, _⟩ := h.journal
  obtain ⟨hfault, i, hm, _⟩ := hrec.exists_resting (View.metadata_iff.1 h.record)
  obtain rfl : i = j := Register.Current.record.inj (hm.durable.symm.trans hj)
  have hthree : BootManager.priority b s = 3 := by
    rw [hrec.priority_eq hm hidle h.record (by rw [h.state]; decide) h.good.1, h.state]
    decide
  have hone := h.priority_other hrec.lifecycle rfl
  exact BootManager.target_of_lt hfault (by omega)

/-- A boot that is asked for no confirmation goes on with a trial that has an attempt left, and
    counts the attempt before it jumps. -/
theorem retried (h : OnTrial s r d.mem) (ha : r.bootAttempts < maxTrialAttempts) (he : e.Sound)
    (hnone : BootManager.confirmRequest (e.restart w d) = none)
    (hb : BootManager.run (e.restart w d) = .done exit b) :
    exit = BootManager.exitFor (BootManager.softwareRequested (e.restart w d) || e.hw.requestPin)
      e.hw.srs.sw (some s) ∧
      (exit ≠ .jumped s → b.durable = (View.of d.mem).durable) ∧
      (exit = .jumped s → ∃ c, OnTrial s c b.mem ∧ c.bootAttempts = r.bootAttempts + 1) := by
  obtain ⟨b₁, hinit, _, hbooted, _, hc₁, _, hended⟩ := h.consistent.ends he hb
  have hjumped : exit = .jumped s → ∃ c, Handed s b c ∧
      (c.state = BootImageState.trial.code → OnTrial s c b.mem) := fun hexit =>
    (h.consistent.jumped he (hexit ▸ hb)).2
  -- with an attempt left nothing is written before the slot is prepared
  have hmem : b₁.mem = d.mem := h.init_unchanged ha hinit
  have hrec := hbooted.recovered hc₁
  have hon : OnTrial s r b₁.mem := hmem ▸ h
  have hd₁ : b₁.durable = (View.of d.mem).durable := by
    show (View.of b₁.mem).durable = _
    rw [hmem]
  rw [← hbooted.confirmRequest] at hnone
  rw [← hbooted.softwareRequested]
  have hhw : b₁.hw = e.hw := hbooted.hw
  rw [← hhw]
  cases hended with
  | programming b₂ hans halike hreason =>
    have halike₁ := hans.alike_of_none hnone
    refine ⟨?_, fun _ => ?_, fun hexit => by cases hexit⟩
    · rcases hreason with hreq | hno
      · rw [hreq]
        rfl
      · rw [BootManager.target_congr halike₁, hon.target hrec,
          BootManager.slotOfTarget_targetOf] at hno
        cases hno
    · exact (BootManager.durable_of_dev (halike₁.trans halike).dev).trans hd₁
  | launched b₂ b₃ x exit hans halike _ hreq hsel hlaunched =>
    have halike₁ := (hans.alike_of_none hnone).trans halike
    have hd₃ : b₃.durable = b₁.durable := BootManager.durable_of_dev halike₁.dev
    rw [BootManager.target_congr halike₁, hon.target hrec,
      BootManager.slotOfTarget_targetOf] at hsel
    obtain rfl := Option.some.inj hsel
    cases hlaunched with
    | reset hno hdev _ =>
      refine ⟨?_, fun _ => ?_, fun hexit => by cases hexit⟩
      · rw [hreq, ← halike₁.hw, hno]
        rfl
      · exact (BootManager.durable_of_dev hdev).trans (hd₃.trans hd₁)
    | jumped hyes hprep _ _ _ =>
      refine ⟨?_, fun hne => absurd rfl hne, fun _ => ?_⟩
      · rw [hreq, ← halike₁.hw, hyes]
        rfl
      -- the attempt is counted before the jump
      rcases hprep.durable with ⟨c, next, hc, hw, hst, hd⟩ | ⟨c, hc, hcs, _⟩
      · rw [hd₃] at hc
        obtain rfl := Register.Current.record.inj (hon.record.symm.trans hc)
        obtain ⟨c, hhanded, hcon⟩ := hjumped rfl
        have hcr := View.metadata_iff.2 (BootMetadata.load_iff.1 hhanded.record)
        have hnew :
            b.durable.metadata s = .record (BootMetadata.completed s (r.sequence + 1) next) := by
          rw [hd, Durable.setMetadata_self]
        obtain rfl := Register.Current.record.inj (hcr.symm.trans hnew)
        refine ⟨_, hcon hst, ?_⟩
        cases hw with
        | start _ hpending => exact absurd (h.state.symm.trans hpending) (by decide)
        | retry _ _ _ => rfl
        | confirm _ _ =>
          have hstate : BootImageState.confirmed.code = BootImageState.trial.code := hst
          exact absurd hstate (by decide)
      · rw [hd₃] at hc
        obtain rfl := Register.Current.record.inj (hon.record.symm.trans hc)
        exact absurd (hcs.symm.trans h.state) (by decide)

/-- A software reset starts the slot again. -/
theorem exists_retry (h : OnTrial s r d.mem) (ha : r.bootAttempts < maxTrialAttempts) :
    ∃ b c, BootManager.run (Turn.softwareReset.restart .cleared d) = .done (.jumped s) b ∧
      OnTrial s c b.mem ∧ c.bootAttempts = r.bootAttempts + 1 := by
  have he := Turn.calm_softwareReset
  obtain ⟨exit, b, hrun⟩ := h.consistent.exists_boot he .cleared
  obtain ⟨hexit, _, hjumped⟩ := h.retried ha he.sound rfl hrun
  obtain rfl : exit = .jumped s := hexit
  obtain ⟨c, hc⟩ := hjumped rfl
  exact ⟨b, c, hrun, hc⟩

end OnTrial

/-- The application that is on trial is told so. -/
theorem Consistent.trial_noted {d : Device Note} (h : Consistent (View.of d.mem).durable) {e : Turn}
    (he : e.Sound) {w : RetainedRecord} {s : Slot} {b : Board} {r : BootSlotMetadata}
    (hb : BootManager.run (e.restart w d) = .done (.jumped s) b) (hon : OnTrial s r b.mem) :
    BootAppIf.getBootStatus b.retained = (.ok, .trial) := by
  obtain ⟨_, c, hhanded, _⟩ := h.jumped he hb
  have hc := View.metadata_iff.2 (BootMetadata.load_iff.1 hhanded.record)
  obtain rfl := Register.Current.record.inj (hc.symm.trans hon.record)
  rcases hhanded.state with ⟨_, _, _, hstatus⟩ | ⟨hconfirmed, _⟩
  · exact hstatus
  · exact absurd (hconfirmed.symm.trans hon.state) (by decide)

/-- The boot after an update of slot B starts its trial. -/
theorem exists_first_start {b₀ : Board} (h : Endures (.serving b₀))
    (hu : BootUds.Updated .b updateImage b₀) : ∃ b r,
    BootManager.run (Turn.softwareReset.restart .cleared b₀.dev) = .done (.jumped .b) b ∧
    OnTrial .b r b.mem ∧ r.bootAttempts = 1 := by
  have hc : Consistent (View.of b₀.dev.mem).durable := h.sound.2
  have he := Turn.calm_softwareReset
  obtain ⟨j, _, hack⟩ := hu.acknowledged shippable_updateImage.tail hc
  obtain ⟨exit, b, hrun⟩ := hc.exists_boot he .cleared
  obtain ⟨_, hdelivered, _⟩ := Acknowledged.delivered (d := b₀.dev) hack he.sound hrun
  obtain rfl : exit = .jumped .b := hdelivered.exits
  obtain ⟨c, hhanded, hon⟩ := (hc.jumped he.sound hrun).2
  obtain ⟨r, hr, _, hjumped, _⟩ := hdelivered.record
  obtain ⟨hst, hattempts⟩ := hjumped rfl
  have hcr := View.metadata_iff.2 (BootMetadata.load_iff.1 hhanded.record)
  obtain rfl := Register.Current.record.inj (hcr.symm.trans hr)
  exact ⟨b, c, hrun, hon hst, hattempts⟩

theorem exists_first_trial : ∃ d b r, Consistent (View.of d.mem).durable ∧
    BootManager.run (Turn.softwareReset.restart .cleared d) = .done (.jumped .b) b ∧
    OnTrial .b r b.mem ∧ r.bootAttempts = 1 := by
  obtain ⟨b₀, hb₀, hupdated⟩ := exists_updated
  obtain ⟨b, r, h⟩ := exists_first_start hb₀ hupdated
  exact ⟨b₀.dev, b, r, hb₀.sound.2, h⟩

/-- The third start of a trial. -/
theorem exists_last_trial : ∃ d b r, Consistent (View.of d.mem).durable ∧
    BootManager.run (Turn.softwareReset.restart .cleared d) = .done (.jumped .b) b ∧
    OnTrial .b r b.mem ∧ r.bootAttempts = maxTrialAttempts := by
  obtain ⟨_, b₁, r₁, _, _, h₁, ha₁⟩ := exists_first_trial
  obtain ⟨b₂, r₂, _, h₂, ha₂⟩ := OnTrial.exists_retry (d := b₁.dev) h₁ (by rw [ha₁]; decide)
  rw [ha₁] at ha₂
  obtain ⟨b₃, r₃, hrun, h₃, ha₃⟩ := OnTrial.exists_retry (d := b₂.dev) h₂ (by rw [ha₂]; decide)
  rw [ha₂] at ha₃
  exact ⟨b₂.dev, b₃, r₃, h₂.consistent, hrun, h₃, ha₃⟩

namespace OnTrial

variable {s : Slot} {r : BootSlotMetadata} {b b' : Board} {d : Device Note} {e : Turn}
  {w : RetainedRecord} {exit : BootExit}

/-- After the last attempt of a trial that was not confirmed, the next boot falls back: it marks the
    image as invalid and leaves the rest as it was, and unless the server is asked for it goes on
    with the slot to fall back to if there is one, and with the server if not. -/
theorem rolls_back {d : Device Note} {e : Turn} {w : RetainedRecord} (h : OnTrial s r d.mem)
    (ha : r.bootAttempts = maxTrialAttempts) (he : e.Sound)
    (hb : BootManager.run (e.restart w d) = .done exit b) :
    ∃ c, c.state = BootImageState.invalid.code ∧
      b.durable = (View.of d.mem).durable.setMetadata s c ∧ exit =
        BootManager.exitFor (BootManager.softwareRequested (e.restart w d) || e.hw.requestPin) e.hw.srs.sw
          ((View.of d.mem).durable.fallback s) := by
  obtain ⟨b₁, hinit, _, hbooted, _, hc₁, _, hended⟩ := h.consistent.ends he hb
  obtain ⟨c, hst, hd⟩ := h.init_failed ha he hinit
  have hrec := hbooted.recovered hc₁
  have hon : OnTrial s r (e.restart w d).mem := h
  obtain ⟨hsame, hexit⟩ := hon.ended_failed hrec hst hd hended
  refine ⟨c, hst, hsame.trans hd, ?_⟩
  have hrequested : BootManager.softwareRequested b₁ =
      BootManager.softwareRequested (e.restart w d) := by
    unfold BootManager.softwareRequested BootRequest.retainedRequest
    rw [hbooted.hw, hbooted.retained]
  rw [hexit, hrequested, hbooted.hw]
  rfl

/-- The fourth start of the first update of slot B. -/
theorem rolls_back_fourth : ∃ (d : Device Note) (exit : BootExit) (b : Board) (c : BootSlotMetadata),
    BootManager.run (Turn.softwareReset.restart .cleared d) = .done exit b ∧
    c.state = BootImageState.invalid.code ∧
    b.durable = (View.of d.mem).durable.setMetadata .b c := by
  obtain ⟨_, b₀, r, _, _, h, ha⟩ := exists_last_trial
  have he := Turn.calm_softwareReset
  obtain ⟨exit, b, hrun⟩ := Consistent.exists_boot (d := b₀.dev) h.consistent he .cleared
  obtain ⟨c, hst, hd, _⟩ := OnTrial.rolls_back (d := b₀.dev) h ha he.sound hrun
  exact ⟨b₀.dev, exit, b, c, hrun, hst, hd⟩

end OnTrial

/-- A device jumps to slot `s`, its application asks for the confirmation and resets, and the next
    boot answers.  The application was on trial; with an attempt left the trial is confirmed and the
    slot started again, and after the last attempt it is marked as invalid and not started. -/
theorem Consistent.confirmation_answered {d : Device Note} (h : Consistent (View.of d.mem).durable)
    {e : Turn} (he : e.Sound) {w : RetainedRecord} {s : Slot} {b : Board}
    (hb : BootManager.run (e.restart w d) = .done (.jumped s) b)
    {mode : AppHealth.TrialMode} {es : List App.Event} {app : App} {ev : App.Event}
    {request : RetainedRecord} (happ : App.After (App.start mode s b.retained) es app)
    (hleaves : app.step ev = .leaves request) (hconfirm : request.magic = confirmMagic)
    {e' : Turn} (he' : e'.Sound) (hsw : e'.hw.srs.sw = true) (hpin : e'.hw.requestPin = false)
    {exit : BootExit} {b' : Board}
    (hb' : BootManager.run (e'.restart request b.dev) = .done exit b') :
    ∃ k r k' c, BootMetadata.load s b.mem = .valid k r ∧
      BootMetadata.load s b'.mem = .valid k' c ∧ r.state = BootImageState.trial.code ∧
      (r.bootAttempts < maxTrialAttempts → c.state = BootImageState.confirmed.code ∧
        c.bootAttempts = 0 ∧ c.successfulBoots = r.successfulBoots + 1 ∧ exit = .jumped s) ∧
      (r.bootAttempts = maxTrialAttempts → c.state = BootImageState.invalid.code ∧
        exit ≠ .jumped s) := by
  obtain ⟨_, r, hr, htrial⟩ := h.jumped he hb
  obtain ⟨hrequest, hstatus, _⟩ := happ.confirm_record rfl hleaves hconfirm
  have hst : r.state = BootImageState.trial.code := by
    rcases hr.state with ⟨hst, _⟩ | ⟨_, hnormal⟩
    · exact hst
    · exact absurd (hnormal.symm.trans hstatus) (by decide)
  have hon : OnTrial s r b.mem := htrial hst
  obtain ⟨k, hk⟩ := hr.record
  obtain ⟨b₁, hinit, _, hbooted, _, hc₁, _, hended⟩ := hon.consistent.ends he' hb'
  have hrec := hbooted.recovered hc₁
  have hw : b₁.retained = AppBootRequest.record confirmMagic s.code :=
    hbooted.retained.trans hrequest
  have hsw₁ : b₁.hw.srs.sw = true := by rw [hbooted.hw]; exact hsw
  have hpin₁ : b₁.hw.requestPin = false := by rw [hbooted.hw]; exact hpin
  have hle : r.bootAttempts.toNat ≤ maxTrialAttempts.toNat := hon.attempts_le
  -- an exhausted trial ends in BootManager_Init, before the request is read
  by_cases ha : r.bootAttempts = maxTrialAttempts
  · obtain ⟨c, hcs, hd⟩ := hon.init_failed ha he' hinit
    obtain ⟨hsame, hexit⟩ := hon.ended_failed hrec hcs hd hended
    have hc' : b'.durable.metadata s = .record c := by
      rw [hsame, hd, Durable.setMetadata_self]
    obtain ⟨k', hk'⟩ := BootMetadata.load_iff.2 (View.metadata_iff.1 hc')
    refine ⟨k, r, k', c, hk, hk', hst, fun hlt => ?_, fun _ => ⟨hcs, ?_⟩⟩
    · rw [ha] at hlt
      exact absurd hlt (BitVec.lt_irrefl _)
    · -- the boot goes on with the other slot, or with the server
      rw [hexit]
      intro hjump
      rcases hon.fallback_cases with ⟨_, hnone⟩ | ⟨_, hsome⟩
      · rw [hnone] at hjump
        cases hjump
      · rw [hsome, hsw₁] at hjump
        unfold BootManager.exitFor at hjump
        dsimp only at hjump
        split at hjump
        · cases hjump
        · exact s.ne_other (BootExit.jumped.inj hjump).symm
  · have hlt : r.bootAttempts < maxTrialAttempts := by
      have hne : r.bootAttempts.toNat ≠ maxTrialAttempts.toNat := fun h =>
        ha (BitVec.eq_of_toNat_eq h)
      exact Nat.lt_of_le_of_ne hle hne
    have hon₁ : OnTrial s r b₁.mem := by
      rw [hon.init_unchanged hlt hinit]
      exact hon
    obtain ⟨hexit, c, hc⟩ := hon₁.confirmed_of_ended hrec hsw₁ hpin₁ hw hended
    obtain ⟨k', hk'⟩ := BootMetadata.load_iff.2 (View.metadata_iff.1 hc.record)
    exact ⟨k, r, k', c, hk, hk', hst, fun _ => ⟨hc.state, hc.attempts, hc.boots, hexit⟩,
      fun h => absurd h ha⟩

/-- A second after its start, when the vehicle task and the bus have been at work, the application
    on trial asks for the confirmation, and it resets a tenth of a second later. -/
theorem App.asks {s : Slot} {w : RetainedRecord}
    (hstatus : BootAppIf.getBootStatus w = (.ok, .trial)) : ∃ es app ev,
    App.After (App.start .normal s w) es app ∧
      app.step ev = .leaves (AppBootRequest.record confirmMagic s.code) := by
  have hhealth : (App.start .normal s w).step (.health ⟨true, 1, 1, 1000⟩) =
      .goesOn { App.start .normal s w with request := ⟨confirmMagic, 1000⟩ } := by
    unfold App.step App.start AppHealth.runTrialAction
    dsimp only
    rw [hstatus]
    unfold BootAppIf.confirmApplication
    rw [hstatus]
    rfl
  have hleaves : App.step { App.start .normal s w with request := ⟨confirmMagic, 1000⟩ }
      (.mainFunction 1100) = .leaves (AppBootRequest.record confirmMagic s.code) := by
    have hdue : AppBootRequest.mainFunction 1100 s ⟨confirmMagic, 1000⟩ =
        some (AppBootRequest.record confirmMagic s.code) := if_neg (by decide)
    unfold App.step App.start
    dsimp only
    rw [hdue]
  exact ⟨_, _, _, .step _ .start hhealth, hleaves⟩

/-- The first start of the update of slot B is confirmed; when only the third one asks for it, the
    image is given up. -/
theorem Consistent.confirmation_answered_both : ∃ (b₁ b₃ : Board) (request : RetainedRecord),
    (∃ b' k c, BootManager.run (Turn.softwareReset.restart request b₁.dev) = .done (.jumped .b) b' ∧
      BootMetadata.load .b b'.mem = .valid k c ∧ c.state = BootImageState.confirmed.code ∧
      c.bootAttempts = 0) ∧
    ∃ exit b' k c, BootManager.run (Turn.softwareReset.restart request b₃.dev) = .done exit b' ∧
      BootMetadata.load .b b'.mem = .valid k c ∧ c.state = BootImageState.invalid.code ∧
      exit ≠ .jumped .b := by
  have he := Turn.calm_softwareReset
  obtain ⟨d₁, b₁, r₁, hc₁, hrun₁, hon₁, ha₁⟩ := exists_first_trial
  obtain ⟨d₃, b₃, r₃, hc₃, hrun₃, hon₃, ha₃⟩ := exists_last_trial
  refine ⟨b₁, b₃, AppBootRequest.record confirmMagic Slot.b.code, ?_, ?_⟩
  · obtain ⟨es, app, ev, happ, hleaves⟩ := App.asks (s := .b) (hc₁.trial_noted he.sound hrun₁ hon₁)
    obtain ⟨exit, b', hrun⟩ := Consistent.exists_boot (d := b₁.dev) hon₁.consistent he
      (AppBootRequest.record confirmMagic Slot.b.code)
    obtain ⟨k, r, k', c, hk, hk', _, hleft, _⟩ := Consistent.confirmation_answered hc₁ he.sound hrun₁
      happ hleaves rfl he.sound rfl rfl hrun
    have hr := View.metadata_iff.2 (BootMetadata.load_iff.1 ⟨k, hk⟩)
    obtain rfl := Register.Current.record.inj (hr.symm.trans hon₁.record)
    obtain ⟨hst, hzero, _, rfl⟩ := hleft (by rw [ha₁]; decide)
    exact ⟨b', k', c, hrun, hk', hst, hzero⟩
  · obtain ⟨es, app, ev, happ, hleaves⟩ := App.asks (s := .b) (hc₃.trial_noted he.sound hrun₃ hon₃)
    obtain ⟨exit, b', hrun⟩ := Consistent.exists_boot (d := b₃.dev) hon₃.consistent he
      (AppBootRequest.record confirmMagic Slot.b.code)
    obtain ⟨k, r, k', c, hk, hk', _, _, hspent⟩ := Consistent.confirmation_answered hc₃ he.sound hrun₃
      happ hleaves rfl he.sound rfl rfl hrun
    have hr := View.metadata_iff.2 (BootMetadata.load_iff.1 ⟨k, hk⟩)
    obtain rfl := Register.Current.record.inj (hr.symm.trans hon₃.record)
    obtain ⟨hst, hexit⟩ := hspent ha₃
    exact ⟨exit, b', k', c, hrun, hk', hst, hexit⟩
