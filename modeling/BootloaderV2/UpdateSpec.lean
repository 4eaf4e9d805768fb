import BootloaderV2.Recovery
import BootloaderV2.SlotFlash

/-!
# Update transactions as steps on the durable state

The functions of `boot_update.c` commit one record after another; `BootUpdate_LoadRecoveryState`
takes recovery steps and leaves a journal that is at rest or ready to be handed over.
-/

open BootConfig NorFlash CrashM TwoCopy

namespace BootJournal.WellFormed

variable {j : BootUpdateJournal} {p q : BootUpdateState}

/-- A well-formed record in another state; the states with a size or a header ask for one before. -/
theorem withState (h : WellFormed j) (hst : j.state = p.code) (result : Word)
    (hresult : result ≤ BootUpdateResult.commissioned.code)
    (hsize : q ≠ .idle → q ≠ .aborted → p ≠ .idle ∧ p ≠ .aborted)
    (hheader : q ∈ [.transferComplete, .verifying, .verified, .pendingActivation] →
      p ∈ [.transferComplete, .verifying, .verified, .pendingActivation]) :
    WellFormed { j with state := q.code, lastResult := result } := by
  refine ⟨?_, hresult, h.activeSlot, h.targetSlot, h.target_ne_active, h.expectedSize_le,
    h.committedSize_le, h.lastBlockSequence, h.flags,
    fun (hlo : BootUpdateState.preparing.code ≤ q.code)
      (hhi : q.code ≤ BootUpdateState.pendingActivation.code) => ?_,
    fun (hlo : BootUpdateState.transferComplete.code ≤ q.code)
      (hhi : q.code ≤ BootUpdateState.pendingActivation.code) => ?_⟩
  · show q.code ≤ BootUpdateState.aborted.code
    cases q <;> decide
  · have hst'' : q ≠ .idle ∧ q ≠ .aborted := by
      revert hlo hhi
      cases q <;> decide
    have hold := hsize hst''.1 hst''.2
    refine h.size ?_ ?_ <;> rw [hst] <;> revert hold <;> cases p <;> decide
  · have hst'' : q ∈ [.transferComplete, .verifying, .verified, .pendingActivation] := by
      revert hlo hhi
      cases q <;> decide
    have hold := hheader hst''
    refine h.header ?_ ?_ <;> rw [hst] <;> revert hold <;> cases p <;> decide

end BootJournal.WellFormed

namespace BootUpdate

/-- The variables of `boot_update.c` agree with the journal on flash. -/
structure Mirror (b : Board) (j : BootUpdateJournal) : Prop where
  ready : b.ram.flash.ready = true
  valid : b.ram.update.journalValid = true
  fault : b.ram.update.storageFault = false
  current : b.ram.update.current = j
  journal : b.view.Journal j

variable {S : Durable → Durable → Prop} {b b' : Board} {j next : BootUpdateJournal}
  {p q : BootUpdateState}

theorem Mirror.wellFormed (h : Mirror b j) : BootJournal.WellFormed j :=
  (View.durable_valid b.dev.mem).journal j (View.journal_iff.2 h.journal)

theorem Mirror.durable (h : Mirror b j) : b.durable.journal = .record j :=
  View.journal_iff.2 h.journal

/-- What a successful `save` of `next` leaves. -/
def Saved (b : Board) (j next : BootUpdateJournal) (b' : Board) : Prop :=
  Mirror b' next ∧ Changed b { b.ram with update := { b.ram.update with current := next } }
    { b.view with journal := .valid next (some j) } b'

theorem Saved.durable (h : Saved b j next b') : b'.durable = b.durable.setJournal next :=
  h.2.durable

theorem Mirror.save {r : BootUpdateJournal} (hm : Mirror b j) (hf : b.dev.Faultless)
    (hwf : BootJournal.WellFormed r)
    (hS : S b.durable (b.durable.setJournal (BootJournal.completed (j.sequence + 1) r))) :
    Runs (Lift S) (save r)
      (fun ok b' => ok = true ∧ Saved b j (BootJournal.completed (j.sequence + 1) r) b') b := by
  obtain ⟨o, ho⟩ := hm.journal
  refine (lifts_save hm.ready hf hm.valid hm.fault ho hwf hS).mono ?_
  rintro ok b' - ⟨rfl, hc⟩
  refine ⟨rfl, ⟨?_, ?_, ?_, ?_, ⟨some j, ?_⟩⟩, hc⟩
  · rw [hc.ram]
    exact hm.ready
  · rw [hc.ram]
    exact hm.valid
  · rw [hc.ram]
    exact hm.fault
  · rw [hc.ram]
  · rw [hc.view]

theorem Mirror.setState (hm : Mirror b j) (hf : b.dev.Faultless) (hst : j.state = p.code)
    (hallowed : transitionAllowed p.code q.code = true)
    (hwf : BootJournal.WellFormed { j with state := q.code })
    (hS : S b.durable (b.durable.setJournal
      (BootJournal.completed (j.sequence + 1) { j with state := q.code }))) :
    Runs (Lift S) (setState q)
      (fun ok b' => ok = true ∧
        Saved b j (BootJournal.completed (j.sequence + 1) { j with state := q.code }) b') b := by
  unfold BootUpdate.setState
  rw [Runs.bind_getRam, hm.current]
  refine .ite (fun h => absurd h (by simp [hst, hallowed])) fun _ => ?_
  exact hm.save hf hwf hS

/-- A mirrored journal after a change of variables that do not concern it. -/
theorem Mirror.withRam {m : Ram} (hm : Mirror b j) (hflash : m.flash = b.ram.flash)
    (hvalid : m.update.journalValid = true) (hfault : m.update.storageFault = false)
    (hcurrent : m.update.current = j) : Mirror { b with ram := m } j :=
  ⟨by rw [hflash]; exact hm.ready, hvalid, hfault, hcurrent, hm.journal⟩

/-- What `BootUpdate_Abort` leaves. -/
def Aborted (b : Board) (j next : BootUpdateJournal) (b' : Board) : Prop :=
  Mirror b' next ∧ Changed b { b.ram with update := { b.ram.update with
      current := next, targetRevalidated := false } }
    { b.view with journal := .valid next (some j) } b'

theorem Mirror.abort {reason : BootUpdateResult} (hm : Mirror b j) (hf : b.dev.Faultless)
    (hst : j.state = p.code) (hidle : p ≠ .idle)
    (hS : S b.durable (b.durable.setJournal (BootJournal.completed (j.sequence + 1)
      { j with state := BootUpdateState.aborted.code, lastResult := reason.code }))) :
    Runs (Lift S) (abort reason)
      (fun ok b' => ok = true ∧ Aborted b j (BootJournal.completed (j.sequence + 1)
        { j with state := BootUpdateState.aborted.code, lastResult := reason.code }) b') b := by
  have hresult : reason.code ≤ BootUpdateResult.commissioned.code := by cases reason <;> decide
  have hwf := hm.wellFormed.withState (q := .aborted) hst reason.code hresult
    (fun _ h => absurd rfl h) fun h => absurd h (by decide)
  have hallowed : transitionAllowed j.state BootUpdateState.aborted.code = true := by
    rw [hst]
    revert hidle
    cases p <;> decide
  obtain rfl := hm.current
  unfold BootUpdate.abort
  rw [Runs.bind_setUpdate, Runs.bind_getRam]
  refine .ite (fun h => absurd h (by simp [hallowed])) fun _ => ?_
  have hm' : Mirror { b with ram := { b.ram with update := { b.ram.update with
      targetRevalidated := false } } } b.ram.update.current :=
    hm.withRam rfl hm.valid hm.fault rfl
  refine (hm'.save hf hwf hS).mono ?_
  rintro ok b' - ⟨rfl, hs, hc⟩
  exact ⟨rfl, hs, hc.ram, hc.view, hc.retained, hc.hw⟩

/-- What the second half of `BootUpdate_MarkVerified` leaves. -/
def Pending (b : Board) (j next : BootUpdateJournal) (b' : Board) : Prop :=
  Mirror b' next ∧ Changed b { b.ram with update := { b.ram.update with
      current := next, targetRevalidated := true } }
    { b.view with journal := .valid next (some j) } b'

/-- The record with which a verified transaction becomes pending. -/
def pendingRecord (j : BootUpdateJournal) (recovered : Bool) : BootUpdateJournal :=
  BootJournal.completed (j.sequence + 1) { j with
    state := BootUpdateState.pendingActivation.code
    lastResult := (if recovered then BootUpdateResult.powerLossRecovered else .success).code }

theorem Mirror.markPending {c : Bool} (hm : Mirror b j) (hf : b.dev.Faultless)
    (hst : j.state = BootUpdateState.verified.code)
    (hS : S b.durable (b.durable.setJournal (pendingRecord j c))) :
    Runs (Lift S) (markPending c)
      (fun ok b' => ok = true ∧ Pending b j (pendingRecord j c) b') b := by
  have hwf := hm.wellFormed.withState (p := .verified) (q := .pendingActivation) hst
    (if c then BootUpdateResult.powerLossRecovered else .success).code
    (by cases c <;> decide) (by decide) (by decide)
  unfold BootUpdate.markPending
  rw [Runs.bind_getRam, hm.current]
  refine .ite (fun h => absurd h (by simp [hst])) fun _ => ?_
  dsimp only
  refine (hm.save hf hwf hS).bind ?_
  rintro ok b' - ⟨rfl, hm', hc⟩
  refine .ite (fun h => absurd h (by decide)) fun _ => ?_
  rw [Runs.bind_setUpdate]
  refine .pure ⟨rfl, hm'.withRam rfl hm'.valid hm'.fault hm'.current, ?_, hc.view, hc.retained,
    hc.hw⟩
  rw [hc.ram]
  rfl

/-- `BootUpdate_MarkVerified` on a transaction that is being verified: two commits. -/
theorem Mirror.markVerified {c : Bool} (hm : Mirror b j) (hf : b.dev.Faultless)
    (hst : j.state = BootUpdateState.verifying.code)
    (hS : S b.durable (b.durable.setJournal (BootJournal.completed (j.sequence + 1)
      { j with state := BootUpdateState.verified.code })))
    (hS' : ∀ d, d = b.durable.setJournal (BootJournal.completed (j.sequence + 1)
        { j with state := BootUpdateState.verified.code }) →
      S d (d.setJournal (pendingRecord (BootJournal.completed (j.sequence + 1)
        { j with state := BootUpdateState.verified.code }) c))) :
    Runs (Lift S) (markVerified c)
      (fun ok b' => ok = true ∧ ∃ b₁,
        Saved b j (BootJournal.completed (j.sequence + 1)
          { j with state := BootUpdateState.verified.code }) b₁ ∧
        Pending b₁ (BootJournal.completed (j.sequence + 1)
          { j with state := BootUpdateState.verified.code })
          (pendingRecord (BootJournal.completed (j.sequence + 1)
            { j with state := BootUpdateState.verified.code }) c) b') b := by
  have hwf := hm.wellFormed.withState (p := .verifying) (q := .verified) hst j.lastResult
    hm.wellFormed.lastResult (by decide) (by decide)
  unfold BootUpdate.markVerified
  rw [Runs.bind_getRam]
  refine .ite (fun _ => ?_) fun h => absurd (by rw [hm.current, hst]) h
  refine (hm.setState hf hst (by decide) hwf hS).bind ?_
  rintro ok b₁ htrail ⟨rfl, hs⟩
  refine .ite (fun h => absurd h (by decide)) fun _ => ?_
  refine (hs.1.markPending (htrail.faultless hf) rfl (hS' _ hs.durable)).mono ?_
  rintro ok b' - ⟨rfl, hp⟩
  exact ⟨rfl, b₁, hs, hp⟩

theorem Mirror.completeActivationHandoff (hm : Mirror b j) (hf : b.dev.Faultless)
    (hst : j.state = BootUpdateState.pendingActivation.code)
    (hS : S b.durable (b.durable.setJournal (BootJournal.completed (j.sequence + 1)
      { j with state := BootUpdateState.idle.code }))) :
    Runs (Lift S) completeActivationHandoff
      (fun ok b' => ok = true ∧ Saved b j (BootJournal.completed (j.sequence + 1)
        { j with state := BootUpdateState.idle.code }) b') b := by
  have hwf := hm.wellFormed.withState (p := .pendingActivation) (q := .idle) hst j.lastResult
    hm.wellFormed.lastResult (by decide) (by decide)
  unfold BootUpdate.completeActivationHandoff canContinue
  rw [Runs.bind_getRam]
  refine .ite (fun h => absurd h (by simp [hm.valid, hm.fault, hm.current, hst])) fun _ => ?_
  rw [hm.current]
  exact hm.save hf hwf hS

end BootUpdate

/-! ## Publication -/

namespace BootImageInstall

variable {b : Board} {j : BootUpdateJournal} {t : Slot}

/-- A header that is written completely is published. -/
theorem published_of_headerAt {img : Nat → Byte} {active : SlotId} {h : BootImageHeader}
    (ha : accepted img active (some t) h = true)
    (hh : HeaderAt t h BootImageHeader.size img) : published img (some t) h = true := by
  have heq : BootImage.headerOf img t = h := by
    rw [← BootImageHeader.ofBytes_bytes h]
    refine BootImageHeader.ofBytes_congr fun i hi => ?_
    rw [hh i (by unfold BootImageHeader.size at hi; unfold flashSectorSize; omega), if_pos hi]
  have hvalid := BootImage.loadInfo_of_header heq (accepted_validate ha).2
  have hhdr := (BootImage.loadInfo_of_valid hvalid).2
  rw [heq] at hhdr
  simp only [published, hvalid, hhdr, beq_self_eq_true, Bool.and_self]

/-- A stage of a publication: the first `p` bytes of the header stand in its erased sector, and the
    rest of the flash is as before. -/
structure Staged (m₀ : Nat → Byte) (t : Slot) (h : BootImageHeader) (p : Nat) (m : Nat → Byte) :
    Prop where
  outside : SameOutside t.header flashSectorSize m₀ m
  sector : ∀ i, i < flashSectorSize → m (t.header + i) = if i < p then h.bytes i else 0xFF

namespace Staged

variable {m₀ m m' : Nat → Byte} {h : BootImageHeader} {p q : Nat}

theorem headerAt (hm : Staged m₀ t h p m) : HeaderAt t h p (BootFlash.image m) := by
  have hhdr := t.headerSector_le
  intro i hi
  rw [BootFlash.image_of_slot m (s := t)]
  · exact hm.sector i hi
  · exact ⟨by omega, by omega⟩

theorem view (hm : Staged m₀ t h p m) :
    View.of m = { View.of m₀ with image := BootFlash.image m } :=
  (View.of_slot (Slot.outside_of_header hm.outside)).1

theorem image (hm : Staged m₀ t h p m) :
    SameOutside t.header flashSectorSize (BootFlash.image m₀) (BootFlash.image m) := by
  intro a ha
  unfold BootFlash.image
  split
  · rfl
  · exact hm.outside a ha

theorem erased :
    Staged m₀ t h 0 ((Command.erase t.header flashSectorSize).effect flashSectorSize m₀) := by
  refine ⟨sameOutside_effect (.erase t.header flashSectorSize) _ _, fun i hi => ?_⟩
  rw [if_neg (Nat.not_lt_zero i)]
  exact erase_effect_erased i hi

/-- The header is blank in the erased sector. -/
theorem blank (hm : Staged m₀ t h 0 m) : Erased m t.header BootImageHeader.size := by
  have hsize : BootImageHeader.size ≤ flashSectorSize := by decide
  intro i hi
  rw [hm.sector i (Nat.lt_of_lt_of_le hi hsize), if_neg (Nat.not_lt_zero i)]

/-- The header while it is programmed. -/
theorem program (hm : Staged m₀ t h 0 m) (hp : p ≤ BootImageHeader.size)
    (hm' : FlashDriver.Programmed t.header h.bytes BootImageHeader.size m p m') :
    Staged m₀ t h p m' := by
  refine ⟨hm.outside.trans (hm'.outside.mono (le_refl _) (Nat.add_le_add_left (by decide) _)),
    fun i hi => ?_⟩
  by_cases hi64 : i < BootImageHeader.size
  · exact hm'.data i hi64
  · rw [hm'.outside _ (by omega), if_neg (by omega), hm.sector i hi, if_neg (Nat.not_lt_zero i)]

theorem accepts (hm : Staged m₀ t h p m) (ht : j.target = some t)
    (ha : (View.of m₀).durable.Accepts j) : (View.of m).durable.Accepts j := by
  rw [hm.view]
  exact Durable.Accepts.setImage ha ht hm.image

theorem publishes (hm : Staged m₀ t j.cachedHeader BootImageHeader.size m)
    (ht : j.target = some t) (ha : (View.of m₀).durable.Accepts j) :
    (View.of m).durable.Publishes j := by
  have hacc := hm.accepts ht ha
  unfold Durable.Publishes
  unfold Durable.Accepts at hacc
  rw [ht] at hacc ⊢
  exact published_of_headerAt hacc hm.headerAt

/-- The erase of the sector is a recovery step. -/
theorem recovers_erase (hm : Staged m₀ t j.cachedHeader 0 m)
    (hj : (View.of m₀).durable.journal = .record j) (hs : Revalidating j.state)
    (ht : j.target = some t) (ha : (View.of m₀).durable.Accepts j)
    (hp : ¬ (View.of m₀).durable.Publishes j) : Lift Recovers (View.of m₀) (View.of m) := by
  rw [hm.view]
  exact .image (.publish j t _ hj hs ha ht hm.image (.inl ⟨hp, hm.headerAt⟩))

/-- So is the programming from one stage to a later one. -/
theorem recovers_program (hm : Staged m₀ t j.cachedHeader p m)
    (hm' : Staged m₀ t j.cachedHeader q m') (hpq : p ≤ q) (hq : q ≤ BootImageHeader.size)
    (hj : (View.of m₀).durable.journal = .record j) (hs : Revalidating j.state)
    (ht : j.target = some t) (ha : (View.of m₀).durable.Accepts j) :
    Lift Recovers (View.of m) (View.of m') := by
  have hacc := hm.accepts ht ha
  have hsame : SameOutside t.header flashSectorSize (BootFlash.image m) (BootFlash.image m') :=
    fun a ha => (hm'.image a ha).trans (hm.image a ha).symm
  rw [hm.view] at hacc
  rw [hm.view, hm'.view]
  exact .image (v := { View.of m₀ with image := BootFlash.image m }) (.publish j t _ hj hs hacc ht
    hsame (.inr ⟨p, q, hpq, hq, hm.headerAt, hm'.headerAt⟩))

end Staged

/-- `BootImageInstall_ValidateAndPublish` during recovery: an accepted header is published in the
    end, any other is refused without a write. -/
theorem lifts_validateAndPublish (hready : b.ram.flash.ready = true) (hf : b.dev.Faultless)
    (hj : b.durable.journal = .record j) (hs : Revalidating j.state) (ht : j.target = some t) :
    Runs (Lift Recovers) (validateAndPublish j.active j.target j.cachedHeader)
      (fun ok b' =>
        (¬ b.durable.Accepts j ∧ ok = false ∧ b' = b) ∨
        (b.durable.Accepts j ∧ ok = true ∧ ∃ f img, f.ready = true ∧
          Changed b { b.ram with flash := f } { b.view with image := img } b' ∧
          b'.durable.Accepts j ∧ b'.durable.Publishes j ∧
          (b.durable.Publishes j → b' = b))) b := by
  have hacc : accepted b.mem j.active j.target j.cachedHeader = true ↔ b.durable.Accepts j := by
    show _ ↔ accepted (BootFlash.image b.mem) _ _ _ = true
    rw [BootFlash.accepted_image]
  have hpub : published b.mem j.target j.cachedHeader = true ↔ b.durable.Publishes j := by
    show _ ↔ published (BootFlash.image b.mem) _ _ = true
    rw [BootFlash.published_image]
  unfold validateAndPublish
  rw [Runs.bind_flash]
  refine .ite (fun hn => .pure (.inl ⟨?_, rfl, rfl⟩)) fun ha => ?_
  · rw [← hacc]
    simpa using hn
  have ha' : b.durable.Accepts j := hacc.1 (by simpa using ha)
  refine .ite (fun hp => .pure (.inr ⟨ha', rfl, b.ram.flash, b.view.image, hready,
    ⟨rfl, rfl, rfl, rfl⟩, ha', hpub.1 hp, fun _ => rfl⟩)) fun hp => ?_
  have hp' : ¬ b.durable.Publishes j := fun h => hp (hpub.2 h)
  have hne : j.active ≠ some t := by
    rw [← ht]
    exact (accepted_validate ha').1
  have hhdr := t.headerSector_le
  have haligned : t.header % flashSectorSize = 0 := by cases t <;> rfl
  rw [ht]
  refine (BootFlash.runs_configureSlots hready hne).bind ?_
  rintro ok b₁ - ⟨rfl, rfl⟩
  refine .ite (fun h => absurd h (by decide)) fun _ => ?_
  have hconf := BootFlash.configured_spec (f := b.ram.flash) hready hne
  -- the sector of the header is erased
  have herase : Staged b.dev.mem t j.cachedHeader 0 _ := .erased
  refine (BootFlash.runs_erase (b := { b with ram := { b.ram with
    flash := BootFlash.configured b.ram.flash j.active t } }) hconf hf hhdr.1 hhdr.2 haligned
    ⟨.quiet ⟨_, .publish j t _ hj hs ha' ht herase.image (.inl ⟨hp', herase.headerAt⟩)⟩
      (.same _) (fun _ => .same _) rfl, herase.recovers_erase hj hs ht ha' hp'⟩).bind ?_
  rintro ok b₂ htrail ⟨rfl, d₁, rfl, hd₁⟩
  refine .ite (fun h => absurd h (by decide)) fun _ => ?_
  rw [← hd₁] at herase
  -- the header is programmed
  refine (BootFlash.runs_program hconf (htrail.faultless hf) (by decide) hhdr.1
    (le_trans (Nat.add_le_add_left (by decide) _) hhdr.2) (by cases t <;> rfl) (by decide)
    herase.blank ?_).bind ?_
  · intro m m' p q hpq hq hm hm'
    exact (herase.program (le_trans hpq hq) hm).recovers_program (herase.program hq hm') hpq hq
      hj hs ht ha'
  rintro ok b₃ - ⟨rfl, d₂, rfl, hd₂⟩
  refine .ite (fun h => absurd h (by decide)) fun _ => ?_
  have hstaged := herase.program (le_refl _) hd₂
  have hpublishes := hstaged.publishes ht ha'
  rw [Runs.bind_flash]
  refine .pure (.inr ⟨ha', ?_, BootFlash.configured b.ram.flash j.active t,
    BootFlash.image d₂.mem, hready, ⟨rfl, hstaged.view, rfl, rfl⟩, hstaged.accepts ht ha',
    hpublishes, fun h => absurd h hp'⟩)
  unfold Durable.Publishes at hpublishes
  rw [ht] at hpublishes
  have hvalid : (BootImage.loadInfo (BootFlash.image d₂.mem) (some t)).validationResult = .valid :=
    (published_valid hpublishes).1
  rw [beq_iff_eq]
  rwa [BootFlash.loadInfo_image] at hvalid

end BootImageInstall

/-! ## Recovery of the journal -/

namespace BootUpdate

variable {b b' : Board} {j : BootUpdateJournal}

/-- The variables other than those of the flash facade and of `boot_update.c` are the same, and so
    are the metadata, the retained words and the environment. -/
structure Frame (b b' : Board) : Prop where
  ram : b'.ram = { b.ram with flash := b'.ram.flash, update := b'.ram.update }
  metadata : b'.view.metadata = b.view.metadata
  retained : b'.retained = b.retained
  hw : b'.hw = b.hw

theorem Frame.trans {b₁ b₂ b₃ : Board} (h : Frame b₁ b₂) (h' : Frame b₂ b₃) : Frame b₁ b₃ := by
  refine ⟨?_, h'.metadata.trans h.metadata, h'.retained.trans h.retained, h'.hw.trans h.hw⟩
  rw [h'.ram, h.ram]

theorem Frame.of_changed {f : BootFlash.State} {u : State} {v : View}
    (h : Changed b { b.ram with flash := f, update := u } v b') (hv : v.metadata = b.view.metadata) :
    Frame b b' := by
  refine ⟨?_, by rw [h.view, hv], h.retained, h.hw⟩
  rw [h.ram]

/-- The journal when a boot is through with it: at rest, or verified and ready to be handed over. -/
structure AtRest (b : Board) (j : BootUpdateJournal) : Prop where
  mirror : Mirror b j
  state : j.state = BootUpdateState.idle.code ∨ j.state = BootUpdateState.aborted.code ∨
    (j.state = BootUpdateState.pendingActivation.code ∧ b.durable.Accepts j ∧
      b.durable.Publishes j ∧ b.ram.update.targetRevalidated = true)

theorem Mirror.congr {b b' : Board} {j : BootUpdateJournal} (h : Mirror b j)
    (hdev : b'.dev = b.dev) (hready : b'.ram.flash.ready = b.ram.flash.ready)
    (hupdate : b'.ram.update = b.ram.update) : Mirror b' j := by
  refine ⟨by rw [hready, h.ready], by rw [hupdate, h.valid], by rw [hupdate, h.fault],
    by rw [hupdate, h.current], ?_⟩
  rw [Board.view, hdev]
  exact h.journal

theorem AtRest.congr {b b' : Board} {j : BootUpdateJournal} (h : AtRest b j)
    (hdev : b'.dev = b.dev) (hready : b'.ram.flash = b.ram.flash)
    (hupdate : b'.ram.update = b.ram.update) : AtRest b' j := by
  refine ⟨h.mirror.congr hdev (by rw [hready]) hupdate, ?_⟩
  rw [Board.durable, Board.view, hdev, hupdate]
  exact h.state

/-- A transaction that is rejected or fails ends ABORTED. -/
theorem Mirror.abort_rest {reason : BootUpdateResult} {p : BootUpdateState} (hm : Mirror b j)
    (hf : b.dev.Faultless) (hst : j.state = p.code) (hidle : p ≠ .idle)
    (hc : RecoveryCommit b.durable j
      { j with state := BootUpdateState.aborted.code, lastResult := reason.code }) :
    Runs (Lift Recovers) (BootUpdate.abort reason)
      (fun _ b' => Frame b b' ∧ ∃ j', AtRest b' j') b := by
  refine (hm.abort hf hst hidle (.commit j _ hm.durable hc)).mono ?_
  rintro ok b' - ⟨rfl, hm', hchg⟩
  refine ⟨.of_changed hchg rfl, _, hm', .inr (.inl rfl)⟩

theorem Changed.accepts {b b' : Board} {ram : Ram} {v : View} (h : Changed b ram v b')
    (hi : v.image = b.view.image) {j : BootUpdateJournal} (ha : b.durable.Accepts j) :
    b'.durable.Accepts j := by
  unfold Durable.Accepts at ha ⊢
  have : b'.durable.image = b.durable.image := by
    show b'.view.image = b.view.image
    rw [h.view, hi]
  rwa [this]

theorem Changed.publishes {b b' : Board} {ram : Ram} {v : View} (h : Changed b ram v b')
    (hi : v.image = b.view.image) {j : BootUpdateJournal} (hp : b.durable.Publishes j) :
    b'.durable.Publishes j := by
  unfold Durable.Publishes at hp ⊢
  have : b'.durable.image = b.durable.image := by
    show b'.view.image = b.view.image
    rw [h.view, hi]
  rwa [this]

/-- From a verified transaction to one that is ready to be handed over. -/
theorem Mirror.markPending_rest (hm : Mirror b j) (hf : b.dev.Faultless)
    (hst : j.state = BootUpdateState.verified.code) (ha : b.durable.Accepts j)
    (hp : b.durable.Publishes j) :
    Runs (Lift Recovers) (BootUpdate.markPending true)
      (fun _ b' => Frame b b' ∧ ∃ j', AtRest b' j') b := by
  refine (hm.markPending (c := true) hf hst
    (.commit j _ hm.durable (.pending hst ha hp))).mono ?_
  rintro ok b' - ⟨rfl, hm', hc⟩
  refine ⟨.of_changed hc rfl, _, hm', .inr (.inr ⟨rfl, ?_, ?_, ?_⟩)⟩
  · exact Changed.accepts hc rfl ha
  · exact Changed.publishes hc rfl hp
  · rw [hc.ram]

/-- The revalidation of a target image. -/
theorem Mirror.revalidate {action : BootRecoveryAction} (hm : Mirror b j) (hf : b.dev.Faultless)
    (hs : Revalidating j.state)
    (haction : action = .pending ↔ j.state = BootUpdateState.pendingActivation.code) :
    Runs (Lift Recovers) (revalidate action) (fun _ b' => Frame b b' ∧ ∃ j', AtRest b' j') b := by
  obtain ⟨t, ht⟩ := hm.wellFormed.exists_target
  obtain ⟨p, hst⟩ := hm.wellFormed.exists_state
  have hidle : p ≠ .idle := by
    rw [hst] at hs
    revert hs
    cases p <;> simp [Revalidating, BootUpdateState.code]
  obtain rfl := hm.current
  unfold BootUpdate.revalidate
  rw [Runs.bind_getRam]
  refine (BootImageInstall.lifts_validateAndPublish hm.ready hf hm.durable hs ht).bind ?_
  rintro ok b₁ htrail (⟨ha, rfl, rfl⟩ | ⟨ha, rfl, f, img, hready, hc, ha₁, hp₁, -⟩)
  · refine .ite (fun _ => ?_) fun h => absurd rfl h
    refine (hm.abort_rest hf hst hidle (.reject hs ha)).bind fun _ b₂ _ h => .pure h
  · have hframe : Frame b b₁ := .of_changed hc rfl
    have hu : b₁.ram.update = b.ram.update := by rw [hc.ram]
    have hm₁ : Mirror b₁ b.ram.update.current := by
      refine ⟨by rw [hc.ram]; exact hready, ?_, ?_, ?_, ?_⟩
      · rw [hu, hm.valid]
      · rw [hu, hm.fault]
      · rw [hu]
      · rw [hc.view]
        exact hm.journal
    refine .ite (fun h => absurd h (by decide)) fun _ => ?_
    refine .ite (fun hpend => ?_) fun hpend => ?_
    · rw [Runs.bind_setUpdate]
      refine .pure ⟨hframe.trans ⟨rfl, rfl, rfl, rfl⟩, _,
        hm₁.withRam rfl hm₁.valid hm₁.fault hm₁.current,
        .inr (.inr ⟨haction.1 hpend, ha₁, hp₁, rfl⟩)⟩
    · unfold BootUpdate.markVerified
      rw [Runs.bind_getRam]
      have hf₁ := htrail.faultless hf
      refine .ite (fun hv => ?_) fun hv => ?_
      · rw [hm₁.current] at hv
        have hwf := hm₁.wellFormed.withState (p := .verifying) (q := .verified) hv _
          hm₁.wellFormed.lastResult (by decide) (by decide)
        refine (hm₁.setState hf₁ hv (by decide) hwf
          (.commit _ _ hm₁.durable (.verified hv ha₁ hp₁))).bind ?_
        rintro ok b₂ htrail₂ ⟨rfl, hm₂, hc₂⟩
        refine .ite (fun h => absurd h (by decide)) fun _ => ?_
        refine (hm₂.markPending_rest (htrail₂.faultless hf₁) rfl (Changed.accepts hc₂ rfl ha₁)
          (Changed.publishes hc₂ rfl hp₁)).mono ?_
        rintro ok b₃ - ⟨hframe₃, hrest⟩
        exact ⟨(hframe.trans (.of_changed hc₂ rfl)).trans hframe₃, hrest⟩
      · rw [hm₁.current] at hv
        have hver := (hs.resolve_left hv).resolve_right fun h => hpend (haction.2 h)
        refine (hm₁.markPending_rest hf₁ hver ha₁ hp₁).mono ?_
        rintro ok b₃ - ⟨hframe₃, hrest⟩
        exact ⟨hframe.trans hframe₃, hrest⟩

/-- Without a current journal record nothing is recovered. -/
structure NoJournal (b : Board) : Prop where
  journal : ∀ j, ¬ b.view.Journal j
  valid : b.ram.update.journalValid = false
  fault : b.ram.update.storageFault = false

theorem NoJournal.congr {b b' : Board} (h : NoJournal b) (hdev : b'.dev = b.dev)
    (hupdate : b'.ram.update = b.ram.update) : NoJournal b' := by
  refine ⟨?_, by rw [hupdate, h.valid], by rw [hupdate, h.fault]⟩
  rw [Board.view, hdev]
  exact h.journal

/-- What `BootUpdate_LoadRecoveryState` leaves. -/
theorem lifts_loadRecoveryState (hready : b.ram.flash.ready = true) (hf : b.dev.Faultless) :
    Runs (Lift Recovers) loadRecoveryState
      (fun _ b' => Frame b b' ∧ b'.ram.flash.ready = true ∧
        (NoJournal b' ∧ b'.dev = b.dev ∨ ∃ j, AtRest b' j)) b := by
  have hpost : ∀ {m : BootM Bool} {b₁ : Board}, Frame b b₁ →
      Runs (Lift Recovers) m (fun _ b' => Frame b₁ b' ∧ ∃ j', AtRest b' j') b₁ →
      Runs (Lift Recovers) m (fun _ b' => Frame b b' ∧ b'.ram.flash.ready = true ∧
        (NoJournal b' ∧ b'.dev = b.dev ∨ ∃ j, AtRest b' j)) b₁ := by
    rintro m b₁ hframe h
    refine h.mono ?_
    rintro ok b' - ⟨hframe', j', hrest⟩
    exact ⟨hframe.trans hframe', hrest.mirror.ready, .inr ⟨j', hrest⟩⟩
  unfold loadRecoveryState recoverLoaded
  rw [Runs.bind_flash]
  cases hl : BootJournal.loadLatest b.mem with
  | valid k j =>
    dsimp only
    rw [Runs.bind_setUpdate, Runs.bind_getRam]
    have hj : b.view.Journal j := BootJournal.loadLatest_iff.1 ⟨k, hl⟩
    have hm : Mirror { b with ram := { b.ram with update := ⟨j, true, false, false⟩ } } j :=
      ⟨hready, rfl, rfl, rfl, hj⟩
    have hframe : Frame b { b with ram := { b.ram with update := ⟨j, true, false, false⟩ } } :=
      ⟨rfl, rfl, rfl, rfl⟩
    obtain ⟨p, hst⟩ := hm.wellFormed.exists_state
    dsimp only
    cases hact : BootRecoveryPolicy.action true j.state with
    | failSafe =>
      -- no state that a well-formed journal can have is fail-safe
      refine absurd hact ?_
      rw [hst]
      cases p <;> decide
    | normal =>
      refine .pure ⟨hframe, hready, .inr ⟨j, hm, ?_⟩⟩
      rw [hst] at hact ⊢
      revert hact
      cases p <;> simp [BootRecoveryPolicy.action, BootUpdateState.code]
    | abort =>
      have hidle : p ≠ .idle := by
        rw [hst] at hact
        revert hact
        cases p <;> decide
      exact hpost hframe (hm.abort_rest hf hst hidle (.interrupt hact))
    | revalidate =>
      dsimp only
      -- TRANSFER_COMPLETE is taken on to VERIFYING before the header is judged
      refine .ite (fun htc => ?_) fun htc => hpost hframe (hm.revalidate hf ?_ ?_)
      · have hwf := hm.wellFormed.withState (p := .transferComplete) (q := .verifying) htc _
          hm.wellFormed.lastResult (by decide) (by decide)
        refine (hm.setState hf htc (by decide) hwf
          (.commit _ _ hm.durable (.verifying htc))).bind ?_
        rintro ok b₂ htrail₂ ⟨rfl, hm₂, hc₂⟩
        refine .ite (fun h => absurd h (by decide)) fun _ => ?_
        refine hpost (hframe.trans (.of_changed hc₂ rfl))
          (hm₂.revalidate (htrail₂.faultless hf) (.inl rfl) ?_)
        refine ⟨fun h => (by cases h), fun h => absurd h ?_⟩
        show BootUpdateState.verifying.code ≠ _
        decide
      · rw [hst] at hact htc ⊢
        revert hact htc
        cases p <;> simp [BootRecoveryPolicy.action, BootUpdateState.code, Revalidating]
      · rw [hst] at hact ⊢
        revert hact
        cases p <;> decide
    | pending =>
      dsimp only
      -- here the journal is in PENDING_ACTIVATION
      refine .ite (fun htc => ?_) fun _ => hpost hframe (hm.revalidate hf ?_ ?_)
      · refine absurd hact ?_
        rw [htc]
        decide
      · rw [hst] at hact ⊢
        revert hact
        cases p <;> simp [BootRecoveryPolicy.action, BootUpdateState.code, Revalidating]
      · rw [hst] at hact ⊢
        revert hact
        cases p <;> decide
  | empty =>
    have hno : ∀ j, ¬ b.view.Journal j := by
      intro j hj
      obtain ⟨k, hk⟩ := BootJournal.loadLatest_iff.2 hj
      exact absurd (hl.symm.trans hk) (by simp)
    dsimp only
    rw [Runs.bind_setUpdate, Runs.bind_getRam]
    exact .pure ⟨⟨rfl, rfl, rfl, rfl⟩, hready, .inl ⟨⟨hno, rfl, rfl⟩, rfl⟩⟩
  | invalid =>
    have hno : ∀ j, ¬ b.view.Journal j := by
      intro j hj
      obtain ⟨k, hk⟩ := BootJournal.loadLatest_iff.2 hj
      exact absurd (hl.symm.trans hk) (by simp)
    dsimp only
    rw [Runs.bind_setUpdate, Runs.bind_getRam]
    exact .pure ⟨⟨rfl, rfl, rfl, rfl⟩, hready, .inl ⟨⟨hno, rfl, rfl⟩, rfl⟩⟩

end BootUpdate
