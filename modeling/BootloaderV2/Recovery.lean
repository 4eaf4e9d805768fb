import BootloaderV2.Durable

/-!
# What a boot does to an unfinished update

`Recovers` lists the steps of `BootUpdate_LoadRecoveryState` and `BootLifecycle_Init` on the durable
state, each with the condition under which it is taken.  `Consistent` ties the journal, the metadata
and the images together; the steps of recovery preserve it.
-/

open BootConfig NorFlash CrashM TwoCopy

namespace BootUpdateState

theorem exists_code {w : Word} (h : w ≤ aborted.code) : ∃ s : BootUpdateState, w = s.code := by
  have hn : w.toNat ≤ 9 := h
  obtain ⟨n, hw, hlt⟩ : ∃ n, w = BitVec.ofNat 32 n ∧ n ≤ 9 :=
    ⟨w.toNat, by simp, hn⟩
  subst hw
  interval_cases n
  exacts [⟨idle, rfl⟩, ⟨preparing, rfl⟩, ⟨erasing, rfl⟩, ⟨downloadReady, rfl⟩, ⟨programming, rfl⟩,
    ⟨transferComplete, rfl⟩, ⟨verifying, rfl⟩, ⟨verified, rfl⟩, ⟨pendingActivation, rfl⟩,
    ⟨aborted, rfl⟩]

theorem code_injective {s t : BootUpdateState} (h : s.code = t.code) : s = t := by
  revert h
  cases s <;> cases t <;> decide

end BootUpdateState

namespace BootUpdateJournal

def active (j : BootUpdateJournal) : SlotId := .ofCode j.activeSlot

def target (j : BootUpdateJournal) : SlotId := .ofCode j.targetSlot

end BootUpdateJournal

theorem SlotId.ofCode_eq_some {w : Word} {s : Slot} (h : ofCode w = some s) : w = s.code := by
  unfold ofCode at h
  split at h
  · cases h
    assumption
  · split at h
    · cases h
      assumption
    · cases h

namespace BootJournal.WellFormed

variable {j : BootUpdateJournal}

theorem exists_target (h : WellFormed j) : ∃ t, j.target = some t := by
  obtain ⟨t, ht⟩ := h.targetSlot
  exact ⟨t, by rw [BootUpdateJournal.target, ht, SlotId.ofCode_slot]⟩

theorem active_ne_target (h : WellFormed j) {x t : Slot} (hx : j.active = some x)
    (ht : j.target = some t) : x = t.other := by
  refine Slot.eq_other_of_ne fun hxt => h.target_ne_active ?_
  rw [SlotId.ofCode_eq_some ht, SlotId.ofCode_eq_some hx, hxt]

theorem exists_state (h : WellFormed j) : ∃ s : BootUpdateState, j.state = s.code :=
  BootUpdateState.exists_code h.state

end BootJournal.WellFormed

/-- The first `p` bytes of a header at the start of its sector, then erased bytes. -/
def HeaderAt (t : Slot) (h : BootImageHeader) (p : Nat) (img : Nat → Byte) : Prop :=
  ∀ i, i < flashSectorSize → img (t.header + i) = if i < p then h.bytes i else 0xFF

/-! ## Images under changes of the target slot -/

namespace Slot

variable {s t : Slot} {m m' : Nat → Byte}

theorem apart (s : Slot) :
    s.base + slotSize ≤ s.other.base ∨ s.other.base + slotSize ≤ s.base := by
  cases s <;> decide

theorem same_other (h : SameOutside t.base slotSize m m') : t.other.Same m m' := by
  intro a ha
  have := t.apart
  unfold Contains at ha
  exact (h a (by omega)).symm

theorem sameLegacy (h : SameOutside t.base slotSize m m') : SameLegacy m m' := by
  intro a ha ha'
  have ht : t.base + slotSize ≤ metadataAddress := by cases t <;> decide
  exact (h a (by omega)).symm

theorem headerSector_le (t : Slot) : t.base ≤ t.header ∧ t.header + flashSectorSize ≤
    t.base + slotSize := by
  cases t <;> decide

theorem outside_of_header (h : SameOutside t.header flashSectorSize m m') :
    SameOutside t.base slotSize m m' :=
  h.mono t.headerSector_le.1 t.headerSector_le.2

theorem samePayload (h : SameOutside t.header flashSectorSize m m') : t.SamePayload m m' :=
  fun a _ ha' => (h a (.inl ha')).symm

end Slot

theorem BootImage.loadInfo_other {t : Slot} {m m' : Nat → Byte}
    (h : SameOutside t.base slotSize m m') :
    loadInfo m (some t.other) = loadInfo m' (some t.other) :=
  loadInfo_congr (Slot.sameLegacy h) (Slot.same_other h)

/-- Publishing a header does not change whether it is accepted. -/
theorem BootImageInstall.accepted_congr {t : Slot} {active : SlotId} {h : BootImageHeader}
    {m m' : Nat → Byte} (hsame : SameOutside t.header flashSectorSize m m') :
    accepted m active (some t) h = accepted m' active (some t) h := by
  have hpay : ∀ info, BootImage.validate m (some t) info = BootImage.validate m' (some t) info :=
    fun _ => BootImage.validate_congr (Slot.samePayload hsame)
  have hinfo : ∀ x, x = t.other → BootImage.loadInfo m (some x) = BootImage.loadInfo m' (some x) := by
    rintro x rfl
    exact BootImage.loadInfo_other (Slot.outside_of_header hsame)
  unfold accepted
  rw [hpay]
  split
  · rfl
  · rename_i hne
    cases active with
    | none => rfl
    | some x =>
      push Not at hne
      dsimp only
      rw [hinfo x (Slot.eq_other_of_ne fun hx => hne.1 (by rw [hx]))]

/-- What the header of an accepted record is worth: it validates against the payload. -/
theorem BootImageInstall.accepted_validate {mem : Nat → Byte} {active target : SlotId}
    {h : BootImageHeader} (ha : accepted mem active target h = true) :
    active ≠ target ∧ (BootImage.validate mem target
      { BootImage.zeroInfo with header := h }).validationResult = .valid := by
  unfold accepted at ha
  split at ha
  · cases ha
  · rename_i hne
    push Not at hne
    split at ha
    · cases ha
    · rename_i hv
      exact ⟨hne.1, by simpa using hv⟩

theorem BootImageInstall.published_valid {mem : Nat → Byte} {t : Slot} {h : BootImageHeader}
    (hp : published mem (some t) h = true) :
    (BootImage.loadInfo mem (some t)).validationResult = .valid ∧
      (BootImage.loadInfo mem (some t)).header.softwareVersion = h.softwareVersion := by
  simp only [published, Bool.and_eq_true, beq_iff_eq] at hp
  exact ⟨hp.1.1.1, hp.1.2⟩

theorem BootLifecycle.imageValid_iff {mem : Nat → Byte} {s : Slot} :
    imageValid mem s = true ↔ (BootImage.loadInfo mem (some s)).validationResult = .valid := by
  unfold imageValid
  dsimp only
  rw [Bool.and_eq_true, beq_iff_eq]
  exact ⟨fun h => h.1, fun h => ⟨h, (BootImage.loadInfo_of_valid h).1⟩⟩

namespace Durable

variable {d d' : Durable} {j : BootUpdateJournal} {s t x : Slot} {r : BootSlotMetadata}

def Accepts (d : Durable) (j : BootUpdateJournal) : Prop :=
  BootImageInstall.accepted d.image j.active j.target j.cachedHeader = true

def Publishes (d : Durable) (j : BootUpdateJournal) : Prop :=
  BootImageInstall.published d.image j.target j.cachedHeader = true

def version (d : Durable) (s : Slot) : Word :=
  (BootImage.loadInfo d.image (some s)).header.softwareVersion

/-- The transaction's active slot, if it has one, is one to fall back to. -/
def ActiveReady (d : Durable) (j : BootUpdateJournal) : Prop :=
  ∀ x, j.active = some x → BootLifecycle.imageValid d.image x = true ∧
    ∃ r, d.metadata x = .record r ∧ r.state = BootImageState.confirmed.code

/-- The record is that of the transaction in `j`, in state `state`. -/
def IsFor (d : Durable) (j : BootUpdateJournal) (t : Slot) (state : BootImageState)
    (r : BootSlotMetadata) : Prop :=
  r.state = state.code ∧ r.imageVersion = d.version t ∧ r.updateCounter = j.transactionId

/-- The slot a failed trial falls back to. -/
def fallback (d : Durable) (s : Slot) : SlotId :=
  match d.metadata s.other with
  | .record r =>
    if r.state = BootImageState.confirmed.code ∧ BootLifecycle.imageValid d.image s.other = true
    then some s.other else none
  | _ => none

end Durable

open Durable

/-- The transaction in `j` can be handed over. -/
structure Deliverable (d : Durable) (j : BootUpdateJournal) (t : Slot) : Prop where
  journal : d.journal = .record j
  state : j.state = BootUpdateState.pendingActivation.code
  target : j.target = some t
  accepts : d.Accepts j
  publishes : d.Publishes j
  active : d.ActiveReady j

/-- The states in which recovery checks the target image. -/
def Revalidating (state : Word) : Prop :=
  state = BootUpdateState.verifying.code ∨ state = BootUpdateState.verified.code ∨
    state = BootUpdateState.pendingActivation.code

/-- The records recovery commits to the journal after `j`. -/
inductive RecoveryCommit (d : Durable) (j : BootUpdateJournal) : BootUpdateJournal → Prop where
  | interrupt (h : BootRecoveryPolicy.action true j.state = .abort) :
    RecoveryCommit d j { j with
      state := BootUpdateState.aborted.code
      lastResult := (if j.state = BootUpdateState.programming.code then
        BootUpdateResult.interruptedProgramming else .interrupted).code }
  | verifying (h : j.state = BootUpdateState.transferComplete.code) :
    RecoveryCommit d j { j with state := BootUpdateState.verifying.code }
  | reject (h : Revalidating j.state) (ha : ¬ d.Accepts j) :
    RecoveryCommit d j { j with
      state := BootUpdateState.aborted.code
      lastResult := BootUpdateResult.verifyFailed.code }
  | verified (h : j.state = BootUpdateState.verifying.code) (ha : d.Accepts j)
    (hp : d.Publishes j) : RecoveryCommit d j { j with state := BootUpdateState.verified.code }
  | pending (h : j.state = BootUpdateState.verified.code) (ha : d.Accepts j)
    (hp : d.Publishes j) :
    RecoveryCommit d j { j with
      state := BootUpdateState.pendingActivation.code
      lastResult := BootUpdateResult.powerLossRecovered.code }
  | handOff (t : Slot) (r : BootSlotMetadata) (h : Deliverable d j t)
    (hr : d.metadata t = .record r) (hfor : d.IsFor j t .pending r) :
    RecoveryCommit d j { j with state := BootUpdateState.idle.code }

/-- The records recovery writes after `r` to the metadata of `s`. -/
inductive RecoveryWrite (d : Durable) (s : Slot) (r : BootSlotMetadata) :
    BootSlotMetadata → Prop where
  | install (j : BootUpdateJournal) (reason : BootResetReason) (h : Deliverable d j s)
    (hpending : ¬ d.IsFor j s .pending r) (hverified : ¬ d.IsFor j s .verified r) :
    RecoveryWrite d s r
      (BootMetadata.verifiedRecord (d.version s) j.transactionId reason.code)
  | promote (j : BootUpdateJournal) (reason : BootResetReason) (h : Deliverable d j s)
    (hverified : d.IsFor j s .verified r) :
    RecoveryWrite d s r
      (BootMetadata.stateRecord r .pending reason.code BootLifecycleResult.none.code)
  | exhausted (j : BootUpdateJournal) (reason : BootResetReason) (hj : d.journal = .record j)
    (hstate : j.state = BootUpdateState.idle.code ∨ j.state = BootUpdateState.aborted.code)
    (htrial : r.state = BootImageState.trial.code) (hattempts : maxTrialAttempts ≤ r.bootAttempts) :
    RecoveryWrite d s r (BootLifecycle.failedRecord r s (d.fallback s) reason.code)

/-- The first records recovery writes to the metadata of `s`. -/
inductive RecoveryFirst (d : Durable) (s : Slot) : BootSlotMetadata → Prop where
  | install (j : BootUpdateJournal) (reason : BootResetReason) (h : Deliverable d j s) :
    RecoveryFirst d s (BootMetadata.verifiedRecord (d.version s) j.transactionId reason.code)
  | commission (j : BootUpdateJournal) (reason : BootResetReason) (hj : d.journal = .record j)
    (hcase : (j.state = BootUpdateState.pendingActivation.code ∧ d.Accepts j ∧ d.Publishes j) ∨
      (j.state = BootUpdateState.aborted.code ∧
        j.lastResult = BootUpdateResult.commissioned.code))
    (hx : j.active = some s) (hi : BootLifecycle.imageValid d.image s = true) :
    RecoveryFirst d s
      (BootLifecycle.confirmedRecord s (d.version s) j.transactionId reason.code)

/-- One step of recovery. -/
inductive Recovers (d : Durable) : Durable → Prop where
  | commit (j next : BootUpdateJournal) (hj : d.journal = .record j)
    (h : RecoveryCommit d j next) :
    Recovers d (d.setJournal (BootJournal.completed (j.sequence + 1) next))
  | write (s : Slot) (r next : BootSlotMetadata) (hr : d.metadata s = .record r)
    (h : RecoveryWrite d s r next) :
    Recovers d (d.setMetadata s (BootMetadata.completed s (r.sequence + 1) next))
  | first (s : Slot) (next : BootSlotMetadata) (hu : d.metadata s = .unset)
    (h : RecoveryFirst d s next) : Recovers d (d.setMetadata s (BootMetadata.completed s 1 next))
  | publish (j : BootUpdateJournal) (t : Slot) (img : Nat → Byte) (hj : d.journal = .record j)
    (hs : Revalidating j.state) (ha : d.Accepts j)
    (ht : j.target = some t) (hout : SameOutside t.header flashSectorSize d.image img)
    (hstage : (¬ d.Publishes j ∧ HeaderAt t j.cachedHeader 0 img) ∨
      ∃ p q, p ≤ q ∧ q ≤ BootImageHeader.size ∧ HeaderAt t j.cachedHeader p d.image ∧
        HeaderAt t j.cachedHeader q img) :
    Recovers d (d.setImage img)

namespace Recovers

variable {d d' : Durable} {j' : BootUpdateJournal}

/-- The transaction is the same before and after a step. -/
theorem journal (h : Recovers d d') (hj' : d'.journal = .record j') :
    ∃ j, d.journal = .record j ∧ j'.activeSlot = j.activeSlot ∧ j'.targetSlot = j.targetSlot ∧
      j'.transactionId = j.transactionId ∧ j'.cachedHeader = j.cachedHeader := by
  cases h with
  | commit j next hj hc =>
    obtain rfl := Register.Current.record.inj hj'
    refine ⟨j, hj, ?_⟩
    cases hc <;> exact ⟨rfl, rfl, rfl, rfl⟩
  | write => exact ⟨j', hj', rfl, rfl, rfl, rfl⟩
  | first => exact ⟨j', hj', rfl, rfl, rfl, rfl⟩
  | publish => exact ⟨j', hj', rfl, rfl, rfl, rfl⟩

/-- Only the header sector of the target changes. -/
theorem image (h : Recovers d d') {j : BootUpdateJournal} {t : Slot} (hj : d.journal = .record j)
    (ht : j.target = some t) : SameOutside t.header flashSectorSize d.image d'.image := by
  cases h with
  | commit => exact .refl _ _ _
  | write => exact .refl _ _ _
  | first => exact .refl _ _ _
  | publish j₁ t₁ img hj₁ _ _ ht₁ hout =>
    obtain rfl := Register.Current.record.inj (hj.symm.trans hj₁)
    obtain rfl := Option.some.inj (ht.symm.trans ht₁)
    exact hout

theorem metadata_ne_ambiguous (h : Recovers d d') {s : Slot} (hs : d.metadata s ≠ .ambiguous) :
    d'.metadata s ≠ .ambiguous := by
  have hset : ∀ t r, (d.setMetadata t r).metadata s ≠ .ambiguous := by
    intro t r
    by_cases ht : s = t
    · rw [ht, Durable.setMetadata_self]
      simp
    · rwa [Durable.setMetadata_of_ne ht]
  cases h with
  | commit => exact hs
  | write => exact hset _ _
  | first => exact hset _ _
  | publish => exact hs

end Recovers

/-- The metadata of a target that can be handed over is not ambiguous. -/
def Durable.Unhindered (d : Durable) : Prop :=
  ∀ j t, d.journal = .record j → j.target = some t →
    (∀ x, j.active = some x → BootLifecycle.imageValid d.image x = true) →
    d.metadata t ≠ .ambiguous

theorem Durable.Unhindered.register {b : Board} {j : BootUpdateJournal} {t : Slot}
    (h : b.durable.Unhindered) (hj : b.durable.journal = .record j) (ht : j.target = some t)
    (hi : ∀ x, j.active = some x → BootLifecycle.imageValid b.durable.image x = true) :
    b.view.metadata t ≠ .ambiguous := by
  intro hg
  refine h j t hj ht hi ?_
  rw [Board.durable, View.durable_metadata, hg]
  rfl

/-- The fields of all current records are valid. -/
structure Durable.Valid (d : Durable) : Prop where
  journal : ∀ j, d.journal = .record j → BootJournal.WellFormed j
  metadata : ∀ s r, d.metadata s = .record r → BootMetadata.WellFormed r

theorem View.durable_valid (mem : Nat → Byte) : (View.of mem).durable.Valid := by
  constructor
  · intro j hj
    obtain ⟨o, ho⟩ := View.journal_iff.1 hj
    obtain ⟨k, hk, -⟩ := BootJournal.recordFormat.load_of_register ho
    exact .of_validate (BootJournal.recordFormat.copy_eq_some.1
      (BootJournal.recordFormat.copy_of_load hk)).1
  · intro s r hr
    obtain ⟨o, ho⟩ := View.metadata_iff.1 hr
    obtain ⟨k, hk, -⟩ := (BootMetadata.recordFormat s).load_of_register ho
    exact .of_validate ((BootMetadata.recordFormat s).copy_eq_some.1
      ((BootMetadata.recordFormat s).copy_of_load hk)).1

/-- What every step from a valid state preserves holds after a program. -/
theorem Trail.durable {S : Durable → Durable → Prop} {P : Durable → Prop} {d d' : Device Note}
    (h : Trail (Lift S) d d') (hstep : ∀ e e', e.Valid → S e e' → P e → P e')
    (hd : P (View.of d.mem).durable) : P (View.of d'.mem).durable := by
  refine h.invariant (P := fun v => P v.durable) (fun m m' hR hm => ?_) hd
  rcases hR.durable with he | hs
  · rwa [he]
  · exact hstep _ _ (View.durable_valid m) hs hm

theorem Recovers.unhindered {d d' : Durable} (h : Recovers d d') (hv : d.Valid)
    (hd : d.Unhindered) : d'.Unhindered := by
  intro j' t hj' ht hi
  obtain ⟨j, hj, hactive, htarget, -⟩ := h.journal hj'
  have ht₀ : j.target = some t := by rw [BootUpdateJournal.target, ← htarget]; exact ht
  refine h.metadata_ne_ambiguous (hd j t hj ht₀ fun x hx => ?_)
  have hx' : j'.active = some x := by rw [BootUpdateJournal.active, hactive]; exact hx
  obtain rfl := (hv.journal j hj).active_ne_target hx ht₀
  have hout := Slot.outside_of_header (h.image hj ht₀)
  have := hi _ hx'
  unfold BootLifecycle.imageValid at this ⊢
  rwa [BootImage.loadInfo_other hout]

/-! ## Consistency -/

namespace Durable

/-- The image in the slot is valid and of the version the record names. -/
def Good (d : Durable) (s : Slot) (r : BootSlotMetadata) : Prop :=
  BootLifecycle.imageValid d.image s = true ∧ d.version s = r.imageVersion

/-- The slot holds a confirmed image. -/
def Confirmed (d : Durable) (s : Slot) : Prop :=
  ∃ r, d.metadata s = .record r ∧ r.state = BootImageState.confirmed.code ∧ d.Good s r

/-- Between transactions: the last one has been handed over. -/
structure Idle (d : Durable) (j : BootUpdateJournal) (t : Slot) : Prop where
  active : ∀ x, j.active = some x → d.Confirmed x
  unknown : j.active = none → d.metadata t.other = .unset
  installed : ∃ r, d.metadata t = .record r ∧ r.updateCounter = j.transactionId ∧ d.Good t r ∧
    (r.state = BootImageState.pending.code ∨ r.state = BootImageState.trial.code ∨
      r.state = BootImageState.confirmed.code ∨ r.state = BootImageState.invalid.code)
  accepts : d.Accepts j
  publishes : d.Publishes j

/-- During a transaction, or after one that was given up. -/
structure Busy (d : Durable) (j : BootUpdateJournal) (t : Slot) : Prop where
  active : ∀ x, j.active = some x → d.Confirmed x ∨
    (j.state = BootUpdateState.aborted.code ∧ j.lastResult = BootUpdateResult.commissioned.code ∧
      d.metadata x = .unset ∧ d.metadata t = .unset)
  unknown : j.active = none → d.metadata t.other = .unset ∧
    (d.metadata t = .unset ∨ (j.state = BootUpdateState.pendingActivation.code ∧
      ∃ r, d.metadata t = .record r ∧
        (r.state = BootImageState.verified.code ∨ r.state = BootImageState.pending.code)))
  accepts : j.state = BootUpdateState.verified.code ∨
    j.state = BootUpdateState.pendingActivation.code → d.Accepts j

end Durable

/-- How journal, metadata and images hang together in every state that boots and updates reach. -/
structure Consistent (d : Durable) : Prop where
  journal : d.journal ≠ .ambiguous
  metadata : ∀ s, d.metadata s ≠ .ambiguous
  unset : d.journal = .unset → ∀ s, d.metadata s = .unset
  idle : ∀ j t, d.journal = .record j → j.target = some t →
    j.state = BootUpdateState.idle.code → d.Idle j t
  busy : ∀ j t, d.journal = .record j → j.target = some t →
    j.state ≠ BootUpdateState.idle.code → d.Busy j t

namespace Durable

variable {d : Durable} {j next : BootUpdateJournal} {s t x : Slot} {r : BootSlotMetadata}
  {img : Nat → Byte}

theorem Confirmed.setMetadata (h : d.Confirmed x) (hx : x ≠ s) :
    (d.setMetadata s r).Confirmed x := by
  obtain ⟨c, hc, hstate, hgood⟩ := h
  exact ⟨c, by rw [setMetadata_of_ne hx, hc], hstate, hgood⟩

theorem Good.setImage_other (h : d.Good t.other r)
    (hout : SameOutside t.base slotSize d.image img) : (d.setImage img).Good t.other r := by
  have hinfo := BootImage.loadInfo_other hout
  unfold Good version BootLifecycle.imageValid at h ⊢
  rw [setImage_image, ← hinfo]
  exact h

theorem Confirmed.setImage_other (h : d.Confirmed t.other)
    (hout : SameOutside t.base slotSize d.image img) : (d.setImage img).Confirmed t.other := by
  obtain ⟨c, hc, hstate, hgood⟩ := h
  exact ⟨c, hc, hstate, hgood.setImage_other hout⟩

theorem Accepts.setImage (h : d.Accepts j) (ht : j.target = some t)
    (hout : SameOutside t.header flashSectorSize d.image img) : (d.setImage img).Accepts j := by
  unfold Accepts at h ⊢
  rw [ht] at h ⊢
  rwa [setImage_image, ← BootImageInstall.accepted_congr hout]

/-- A published header makes the image of the target valid. -/
theorem Publishes.imageValid (h : d.Publishes j) (ht : j.target = some t) :
    BootLifecycle.imageValid d.image t = true ∧ d.version t = j.cachedHeader.softwareVersion := by
  unfold Publishes at h
  rw [ht] at h
  have hv := BootImageInstall.published_valid h
  exact ⟨BootLifecycle.imageValid_iff.2 hv.1, hv.2⟩

end Durable

namespace Consistent

variable {d d' : Durable} {j next : BootUpdateJournal} {s t x : Slot} {r : BootSlotMetadata}

/-- The next record of a transaction that goes on or is given up. -/
theorem setJournal_busy {p q : BootUpdateState} (h : Consistent d)
    (hj : d.journal = .record j) (hst : j.state = p.code) (hst' : next.state = q.code)
    (hactive : next.activeSlot = j.activeSlot) (htarget : next.targetSlot = j.targetSlot)
    (hold : p ≠ .idle ∧ p ≠ .aborted) (hnew : q ≠ .idle)
    (hpending : p = .pendingActivation → q = .pendingActivation)
    (haccepts : q = .verified ∨ q = .pendingActivation → d.Accepts next) :
    Consistent (d.setJournal next) := by
  have ha : next.active = j.active := congrArg SlotId.ofCode hactive
  have ht : next.target = j.target := congrArg SlotId.ofCode htarget
  refine ⟨by simp, h.metadata, by simp, ?_, ?_⟩
  · intro j' t hj' _ hs
    obtain rfl := (Register.Current.record.inj hj').symm
    exact absurd (BootUpdateState.code_injective (hst'.symm.trans hs)) hnew
  · intro j' t hj' htg _
    obtain rfl := (Register.Current.record.inj hj').symm
    have hb := h.busy j t hj (ht ▸ htg) fun hs =>
      hold.1 (BootUpdateState.code_injective (hst.symm.trans hs))
    refine ⟨fun x hx => ?_, fun hn => ?_, fun hs => haccepts ?_⟩
    · refine .inl ((hb.active x (ha ▸ hx)).resolve_right fun hc => hold.2 ?_)
      exact BootUpdateState.code_injective (hst.symm.trans hc.1)
    · obtain ⟨ho, hm⟩ := hb.unknown (ha ▸ hn)
      refine ⟨ho, hm.imp_right fun hp => ⟨?_, hp.2⟩⟩
      rw [hst', hpending (BootUpdateState.code_injective (hst.symm.trans hp.1))]
    · rw [hst'] at hs
      exact hs.imp BootUpdateState.code_injective BootUpdateState.code_injective

/-- A change to the target slot of a transaction that is not handed over. -/
theorem setImage_busy {img : Nat → Byte} (h : Consistent d) (hv : d.Valid)
    (hj : d.journal = .record j) (ht : j.target = some t)
    (hidle : j.state ≠ BootUpdateState.idle.code)
    (hout : SameOutside t.base slotSize d.image img)
    (haccepts : j.state = BootUpdateState.verified.code ∨
      j.state = BootUpdateState.pendingActivation.code → (d.setImage img).Accepts j) :
    Consistent (d.setImage img) := by
  refine ⟨h.journal, h.metadata, h.unset, ?_, ?_⟩
  · intro j' t' hj' _ hs
    obtain rfl := Register.Current.record.inj (hj.symm.trans hj')
    exact absurd hs hidle
  · intro j' t' hj' htg _
    obtain rfl := Register.Current.record.inj (hj.symm.trans hj')
    obtain rfl := Option.some.inj (ht.symm.trans htg)
    have hb := h.busy j t hj ht hidle
    refine ⟨fun x hx => ?_, hb.unknown, haccepts⟩
    refine (hb.active x hx).imp_left fun hc => ?_
    obtain rfl := (hv.journal j hj).active_ne_target hx ht
    exact hc.setImage_other hout

/-- The transaction of a deliverable journal has its fallback. -/
theorem deliverable_active (h : Consistent d) (hd : Deliverable d j t) {x : Slot}
    (hx : j.active = some x) : d.Confirmed x := by
  have hb := h.busy j t hd.journal hd.target (by rw [hd.state]; decide)
  refine (hb.active x hx).resolve_right fun hc => ?_
  rw [hd.state] at hc
  exact absurd hc.1 (by decide)

theorem commit (h : Consistent d) (hv : d.Valid) (hj : d.journal = .record j)
    (hc : RecoveryCommit d j next) :
    Consistent (d.setJournal (BootJournal.completed (j.sequence + 1) next)) := by
  obtain ⟨p, hst⟩ := (hv.journal j hj).exists_state
  cases hc with
  | interrupt hs =>
    have hold : p ≠ .idle ∧ p ≠ .aborted ∧ p ≠ .pendingActivation := by
      rw [hst] at hs
      revert hs
      cases p <;> decide
    exact h.setJournal_busy (q := .aborted) hj hst rfl rfl rfl ⟨hold.1, hold.2.1⟩ (by decide)
      (fun hp => absurd hp hold.2.2) fun hs => absurd hs (by decide)
  | verifying hs =>
    exact h.setJournal_busy (q := .verifying) hj hs rfl rfl rfl (by decide) (by decide)
      (by decide) fun hs => absurd hs (by decide)
  | reject hs ha =>
    obtain ⟨t, ht⟩ := (hv.journal j hj).exists_target
    -- an accepted transaction is not rejected
    have hold : p = .verifying := by
      by_contra hne
      have hs' : j.state = BootUpdateState.verified.code ∨
          j.state = BootUpdateState.pendingActivation.code :=
        hs.resolve_left fun hs => hne (BootUpdateState.code_injective (hst.symm.trans hs))
      refine ha ((h.busy j t hj ht ?_).accepts hs')
      rcases hs' with hs' | hs' <;> rw [hs'] <;> decide
    subst hold
    exact h.setJournal_busy (q := .aborted) hj hst rfl rfl rfl (by decide) (by decide)
      (by decide) fun hs => absurd hs (by decide)
  | verified hs ha hp =>
    exact h.setJournal_busy (q := .verified) hj hs rfl rfl rfl (by decide) (by decide)
      (by decide) fun _ => ha
  | pending hs ha hp =>
    exact h.setJournal_busy (q := .pendingActivation) hj hs rfl rfl rfl (by decide) (by decide)
      (by decide) fun _ => ha
  | handOff t r hd hr hfor =>
    have hb := h.busy j t hj hd.target (by rw [hd.state]; decide)
    refine ⟨by simp, h.metadata, by simp, ?_, ?_⟩
    · intro j' t' hj' htg _
      obtain rfl := (Register.Current.record.inj hj').symm
      obtain rfl : t = t' := Option.some.inj (hd.target.symm.trans htg)
      refine ⟨fun x hx => h.deliverable_active hd hx, fun hn => (hb.unknown hn).1, ?_, hd.accepts,
        hd.publishes⟩
      exact ⟨r, hr, hfor.2.2, ⟨(hd.publishes.imageValid hd.target).1, hfor.2.1.symm⟩, .inl hfor.1⟩
    · intro j' t' hj' _ hs
      obtain rfl := (Register.Current.record.inj hj').symm
      exact absurd rfl hs

/-- A new record for the target of a transaction that is being handed over. -/
theorem setMetadata_deliverable {p : BootImageState} (h : Consistent d) (hv : d.Valid)
    (hd : Deliverable d j s) (hst : r.state = p.code) (hcase : p = .verified ∨ p = .pending) :
    Consistent (d.setMetadata s r) := by
  have hb := h.busy j s hd.journal hd.target (by rw [hd.state]; decide)
  refine ⟨h.journal, fun t => ?_, fun hu => ?_, ?_, ?_⟩
  · by_cases ht : t = s
    · rw [ht, setMetadata_self]
      simp
    · rw [setMetadata_of_ne ht]
      exact h.metadata t
  · exact absurd (hd.journal.symm.trans hu) (by simp)
  · intro j' t hj' _ hs
    obtain rfl := Register.Current.record.inj (hd.journal.symm.trans hj')
    rw [hd.state] at hs
    exact absurd hs (by decide)
  · intro j' t hj' htg _
    obtain rfl := Register.Current.record.inj (hd.journal.symm.trans hj')
    obtain rfl := Option.some.inj (hd.target.symm.trans htg)
    refine ⟨fun x hx => .inl ?_, fun hn => ⟨?_, .inr ⟨hd.state, r, setMetadata_self, ?_⟩⟩,
      fun _ => hd.accepts⟩
    · refine (h.deliverable_active hd hx).setMetadata ?_
      rw [(hv.journal j hd.journal).active_ne_target hx hd.target]
      exact s.other_ne
    · rw [setMetadata_of_ne s.other_ne]
      exact (hb.unknown hn).1
    · rw [hst]
      exact hcase.imp (congrArg _) (congrArg _)

/-- A trial ends where the journal is at rest. -/
theorem setMetadata_trial {r' : BootSlotMetadata} (h : Consistent d) (hv : d.Valid)
    (hj : d.journal = .record j)
    (hstate : j.state = BootUpdateState.idle.code ∨ j.state = BootUpdateState.aborted.code)
    (hr : d.metadata s = .record r) (hconfirmed : r.state ≠ BootImageState.confirmed.code)
    (hversion : r'.imageVersion = r.imageVersion) (hcounter : r'.updateCounter = r.updateCounter)
    (hst : r'.state = BootImageState.trial.code ∨ r'.state = BootImageState.confirmed.code ∨
      r'.state = BootImageState.invalid.code) :
    Consistent (d.setMetadata s r') := by
  obtain ⟨t, ht⟩ := (hv.journal j hj).exists_target
  have hother : ∀ {x}, j.active = some x → x = t.other := fun hx =>
    (hv.journal j hj).active_ne_target hx ht
  -- a confirmed slot is not the one on trial
  have hne : ∀ x, d.Confirmed x → x ≠ s := by
    rintro x ⟨c, hc, hcs, -⟩ rfl
    obtain rfl := Register.Current.record.inj (hr.symm.trans hc)
    exact hconfirmed hcs
  have hset : ∀ x, d.metadata x = .unset → x ≠ s := by
    rintro x hx rfl
    exact absurd (hr.symm.trans hx) (by simp)
  refine ⟨h.journal, fun u => ?_, fun hu => ?_, ?_, ?_⟩
  · by_cases hu : u = s
    · rw [hu, setMetadata_self]
      simp
    · rw [setMetadata_of_ne hu]
      exact h.metadata u
  · exact absurd (hj.symm.trans hu) (by simp)
  · intro j' t' hj' htg hs
    obtain rfl := Register.Current.record.inj (hj.symm.trans hj')
    obtain rfl := Option.some.inj (ht.symm.trans htg)
    have hi := h.idle j t hj ht hs
    refine ⟨fun x hx => (hi.active x hx).setMetadata (hne x (hi.active x hx)), fun hn => ?_, ?_,
      hi.accepts, hi.publishes⟩
    · rw [setMetadata_of_ne (hset _ (hi.unknown hn))]
      exact hi.unknown hn
    · obtain ⟨r₀, hr₀, hcount, hgood, -⟩ := hi.installed
      -- the slot on trial is the target: the other one is confirmed or unset
      have hts : t = s := by
        by_contra hts
        have hs' : s = t.other := Slot.eq_other_of_ne fun he => hts he.symm
        cases hx : j.active with
        | none => exact hset _ (hi.unknown hx) hs'.symm
        | some x => exact hne x (hi.active x hx) ((hother hx).trans hs'.symm)
      subst hts
      obtain rfl := Register.Current.record.inj (hr.symm.trans hr₀)
      refine ⟨r', setMetadata_self, hcounter.trans hcount, ⟨hgood.1, ?_⟩, .inr hst⟩
      exact hgood.2.trans hversion.symm
  · intro j' t' hj' htg hs
    obtain rfl := Register.Current.record.inj (hj.symm.trans hj')
    obtain rfl := Option.some.inj (ht.symm.trans htg)
    have hab := hstate.resolve_left hs
    have hb := h.busy j t hj ht hs
    refine ⟨fun x hx => ?_, fun hn => ?_, hb.accepts⟩
    · rcases hb.active x hx with hc | hc
      · exact .inl (hc.setMetadata (hne x hc))
      · obtain rfl := hother hx
        by_cases hts : t = s
        · exact absurd hts (hset t hc.2.2.2)
        · exact absurd (Slot.eq_other_of_ne fun he => hts he.symm).symm (hset _ hc.2.2.1)
    · obtain ⟨ho, hm⟩ := hb.unknown hn
      rw [setMetadata_of_ne (hset _ ho)]
      refine ⟨ho, .inl ?_⟩
      rcases hm with hm | hm
      · rw [setMetadata_of_ne (hset _ hm)]
        exact hm
      · rw [hab] at hm
        exact absurd hm.1 (by decide)

theorem write {next : BootSlotMetadata} (h : Consistent d) (hv : d.Valid)
    (hr : d.metadata s = .record r) (hw : RecoveryWrite d s r next) :
    Consistent (d.setMetadata s (BootMetadata.completed s (r.sequence + 1) next)) := by
  cases hw with
  | install j reason hd hp hver =>
    exact h.setMetadata_deliverable (p := .verified) hv hd rfl (.inl rfl)
  | promote j reason hd hver =>
    exact h.setMetadata_deliverable (p := .pending) hv hd rfl (.inr rfl)
  | exhausted j reason hj hs ht ha =>
    refine h.setMetadata_trial hv hj hs hr ?_ rfl rfl (.inr (.inr rfl))
    rw [ht]
    decide

theorem first {next : BootSlotMetadata} (h : Consistent d) (hv : d.Valid)
    (hu : d.metadata s = .unset) (hf : RecoveryFirst d s next) :
    Consistent (d.setMetadata s (BootMetadata.completed s 1 next)) := by
  cases hf with
  | install j reason hd => exact h.setMetadata_deliverable (p := .verified) hv hd rfl (.inl rfl)
  | commission j reason hj hcase hx hi =>
    obtain ⟨t, ht⟩ := (hv.journal j hj).exists_target
    obtain rfl := (hv.journal j hj).active_ne_target hx ht
    have hidle : j.state ≠ BootUpdateState.idle.code := by
      rcases hcase with hc | hc <;> rw [hc.1] <;> decide
    have hb := h.busy j t hj ht hidle
    have hunset := (hb.active _ hx).resolve_left fun ⟨c, hc, _⟩ =>
      absurd (hu.symm.trans hc) (by simp)
    refine ⟨h.journal, fun u => ?_, fun hj' => absurd (hj.symm.trans hj') (by simp), ?_, ?_⟩
    · by_cases hus : u = t.other
      · rw [hus, setMetadata_self]
        simp
      · rw [setMetadata_of_ne hus]
        exact h.metadata u
    · intro j' t' hj' _ hs
      obtain rfl := Register.Current.record.inj (hj.symm.trans hj')
      exact absurd hs hidle
    · intro j' t' hj' htg _
      obtain rfl := Register.Current.record.inj (hj.symm.trans hj')
      refine ⟨fun x hx' => .inl ?_, fun hn => absurd (hn.symm.trans hx) (by simp), hb.accepts⟩
      obtain rfl := Option.some.inj (hx.symm.trans hx')
      exact ⟨_, setMetadata_self, rfl, hi, rfl⟩

/-- Recovery keeps the durable state consistent. -/
theorem recovers (h : Consistent d) (hv : d.Valid) (hd : Recovers d d') : Consistent d' := by
  cases hd with
  | commit j next hj hc => exact h.commit hv hj hc
  | write s r next hr hw => exact h.write hv hr hw
  | first s next hu hf => exact h.first hv hu hf
  | publish j t img hj hs ha ht hout hstage =>
    refine h.setImage_busy hv hj ht ?_ (Slot.outside_of_header hout) fun _ =>
      ha.setImage ht hout
    rcases hs with hs | hs | hs <;> rw [hs] <;> decide

end Consistent
