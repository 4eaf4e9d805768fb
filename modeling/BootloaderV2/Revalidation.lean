import BootloaderV2.BootSpec
import BootloaderV2.Commission
import BootloaderV2.Opening

/-!
# Verification and recovery

A transferred image is verified by routine 0xFF01, or by the next boot if the power fails before.
Both judge the staged header against the payload and the version against the active image, and both
publish the header.
-/

open BootConfig NorFlash CrashM TwoCopy

/-! ## The header sector -/

namespace BootImage

theorem magic_of_validateHeader {slot : SlotId} {h : BootImageHeader}
    (hv : validateHeader slot h = .valid) : h.magic = headerMagic := by
  unfold validateHeader at hv
  split at hv
  · cases hv
  · split at hv
    · cases hv
    · split at hv
      · cases hv
      · split at hv
        · cases hv
        · rename_i hm
          exact not_not.1 hm

/-- A header sector that starts with the marker holds no image. -/
theorem not_valid_of_marker {mem : Nat → Byte} {t : Slot}
    (h : ∀ i, i < flashPhraseSize → mem (t.header + i) = 0) :
    (loadInfo mem (some t)).validationResult ≠ .valid ∧ isBootable mem (some t) = false := by
  obtain ⟨d, hd⟩ : ∃ d, BootSlot.getDescriptor (some t) = some d := by cases t <;> exact ⟨_, rfl⟩
  have hmagic : (headerOf mem t).magic = 0 := by
    show Words.wordOf (fun i => mem (t.header + i)) 0 = 0
    have hzero : Words.wordOf (fun i => mem (t.header + i)) 0 = Words.wordOf (fun _ => 0) 0 :=
      Words.wordOf_congr fun i _ hi => h i (by unfold flashPhraseSize; omega)
    rw [hzero]
    decide
  have herased : headerIsErased (headerOf mem t) = false := by
    rw [headerIsErased, Bool.eq_false_iff]
    intro hall
    have := (List.all_eq_true.1 hall) (headerOf mem t).magic (by simp [BootImageHeader.toList])
    rw [hmagic] at this
    exact absurd this (by decide)
  have hno : validateHeader (some t) (headerOf mem t) ≠ .valid := fun hv =>
    absurd ((magic_of_validateHeader hv).symm.trans hmagic) (by decide)
  have hresult : (loadInfo mem (some t)).validationResult =
      validateHeader (some t) (headerOf mem t) := by
    unfold loadInfo
    rw [hd]
    dsimp only
    rw [readHeader_eq hd, if_neg (by simp [herased]), validate_result, if_neg hno]
  have hlegacy : validateHeader (some t) (headerOf mem t) ≠ .validLegacy := by
    unfold validateHeader
    split
    · simp
    · repeat' split
      all_goals simp
  refine ⟨by rwa [hresult], ?_⟩
  unfold isBootable
  rw [hresult]
  simp [hno, hlegacy]

/-- A published header that validates is the image. -/
theorem loadInfo_of_headerAt {mem : Nat → Byte} {t : Slot} {h : BootImageHeader}
    (hh : HeaderAt t h BootImageHeader.size mem)
    (hv : (validate mem (some t) { zeroInfo with header := h }).validationResult = .valid) :
    (loadInfo mem (some t)).validationResult = .valid := by
  refine loadInfo_of_header ?_ hv
  rw [← BootImageHeader.ofBytes_bytes h]
  refine BootImageHeader.ofBytes_congr fun i hi => ?_
  rw [hh i (lt_trans hi (by decide)), if_pos hi]

end BootImage

/-- Erasing the header sector and programming the header leaves the header and erased bytes. -/
theorem headerAt_place (t : Slot) (h : BootImageHeader) (m : Nat → Byte) :
    HeaderAt t h BootImageHeader.size (place t.header BootImageHeader.size h.bytes
      (place t.header flashSectorSize (fun _ => 0xFF) m)) := by
  intro i hi
  by_cases hlow : i < BootImageHeader.size
  · rw [place_inside hlow, if_pos hlow]
  · rw [place_outside (by omega), place_inside hi, if_neg hlow]

/-! ## The transaction moves on -/

namespace BootUpdate

variable {b b' : Board} {next : BootUpdateJournal} {p : BootUpdateState}

/-- Nothing but the transaction differs. -/
structure Moved (b b' : Board) : Prop where
  healthy : b'.dev.Healthy
  ram : b'.ram = { b.ram with update := b'.ram.update }
  hw : b'.hw = b.hw
  only : JournalOnly b.mem b'.mem
  inStep : InStep b'

theorem Logged.moved (h : Logged b next b') (hd : b'.dev.Healthy) : Moved b b' := by
  refine ⟨hd, ?_, ?_, h.only, h.inStep⟩
  · rw [h.ram]
  · rw [h.board]
    rfl

theorem Moved.trans {b₁ b₂ b₃ : Board} (h : Moved b₁ b₂) (h' : Moved b₂ b₃) : Moved b₁ b₃ :=
  ⟨h'.healthy, by rw [h'.ram, h.ram], h'.hw.trans h.hw, h.only.trans h'.only, h'.inStep⟩

theorem Moved.ready (h : Moved b b') (hready : b.ram.flash.ready = true) :
    b'.ram.flash.ready = true := by
  rw [h.ram]
  exact hready

/-- The journal but for its sequence number, the last result and the checksum. -/
def settled (r : BootUpdateJournal) : BootUpdateJournal :=
  { r with sequence := 0, lastResult := 0, journalCrc := 0 }

/-- What is settled once a record has been committed. -/
def outcome (r : BootUpdateJournal) : BootUpdateJournal := settled (BootJournal.completed 0 r)

/-- A state on the way leaves no trace. -/
theorem outcome_completed (n : Word) (r : BootUpdateJournal) (s s' : Word) :
    outcome { BootJournal.completed n { r with state := s } with state := s' } =
      outcome { r with state := s' } := by
  simp only [outcome, settled, BootJournal.completed]

/-- `BootUpdate_SetState` on a record that has its size, and its header where the state asks for it. -/
theorem completes_advance {q : BootUpdateState} (h : InStep b) (hready : b.ram.flash.ready = true)
    (hd : b.dev.Healthy) (hst : b.ram.update.current.state = p.code)
    (hallowed : transitionAllowed p.code q.code = true) (hp : p ≠ .idle ∧ p ≠ .aborted)
    (hheader : q ∈ [.transferComplete, .verifying, .verified, .pendingActivation] →
      p ∈ [.transferComplete, .verifying, .verified, .pendingActivation]) :
    Completes (setState q) (fun ok b' => ok = true ∧ Moved b b' ∧ ∃ n,
      b'.ram.update.current =
        BootJournal.completed n { b.ram.update.current with state := q.code }) b := by
  refine (BootProgramming.completes_next h hready hd hst hallowed hp hheader).mono ?_
  rintro ok b' ⟨rfl, hd', hl⟩
  obtain ⟨j, -, hcur⟩ := hl.record
  exact ⟨rfl, hl.moved hd', _, hcur⟩

/-- `BootUpdate_Abort` of a transaction. -/
theorem completes_abort {reason : BootUpdateResult} (h : InStep b)
    (hready : b.ram.flash.ready = true) (hd : b.dev.Healthy)
    (hst : b.ram.update.current.state = p.code) (hp : p ≠ .idle) :
    Completes (abort reason) (fun ok b' => ok = true ∧ Moved b b' ∧
      b'.ram.update.current.state = BootUpdateState.aborted.code ∧
      b'.ram.update.current.targetSlot = b.ram.update.current.targetSlot ∧
      b'.ram.update.targetRevalidated = false) b := by
  have hresult : reason.code ≤ BootUpdateResult.commissioned.code := by cases reason <;> decide
  have hwf := h.current.wellFormed.withState (q := .aborted) hst reason.code hresult
    (fun _ h => absurd rfl h) fun h => absurd h (by decide)
  have hallowed : transitionAllowed b.ram.update.current.state BootUpdateState.aborted.code =
      true := by
    rw [hst]
    revert hp
    cases p <;> decide
  unfold abort
  rw [Completes.bind_setUpdate, Completes.bind_getRam]
  refine .ite (fun hno => absurd hno (by simp [hallowed])) fun _ => ?_
  generalize hb₁ : ({ b with ram := { b.ram with update := { b.ram.update with
    targetRevalidated := false } } } : Board) = b₁
  obtain ⟨hdev₁, hram₁, hhw₁⟩ : b₁.dev = b.dev ∧ b₁.ram = { b.ram with update :=
      { b.ram.update with targetRevalidated := false } } ∧ b₁.hw = b.hw := by
    rw [← hb₁]
    exact ⟨rfl, rfl, rfl⟩
  have hin₁ : InStep b₁ := by
    refine ⟨?_, ?_⟩
    · rw [hram₁]
      exact h.can
    · show BootJournal.Current b₁.dev.mem _
      rw [hdev₁, hram₁]
      exact h.current
  have hready₁ : b₁.ram.flash.ready = true := by
    rw [hram₁]
    exact hready
  have hd₁ : b₁.dev.Healthy := by rwa [hdev₁]
  have hcur₁ : b₁.ram.update.current = b.ram.update.current := by rw [hram₁]
  rw [hcur₁]
  refine (completes_save hin₁ hready₁ hd₁ hwf).mono ?_
  rintro ok b' ⟨rfl, hd', hl⟩
  obtain ⟨j, -, hcur⟩ := hl.record
  have hm := hl.moved hd'
  refine ⟨rfl, ⟨hd', ?_, hm.hw.trans hhw₁, ?_, hm.inStep⟩, ?_, ?_, ?_⟩
  · rw [hm.ram, hram₁]
  · show JournalOnly b.dev.mem _
    rw [← hdev₁]
    exact hm.only
  · rw [hcur]
    rfl
  · rw [hcur]
    rfl
  · rw [hl.ram, hram₁]

/-- `BootUpdate_MarkVerified` of a transaction that is being verified. -/
theorem completes_markVerified {recovered : Bool} (h : InStep b)
    (hready : b.ram.flash.ready = true) (hd : b.dev.Healthy)
    (hst : b.ram.update.current.state = BootUpdateState.verifying.code) :
    Completes (markVerified recovered) (fun ok b' => ok = true ∧ Moved b b' ∧
      settled b'.ram.update.current = outcome { b.ram.update.current with
        state := BootUpdateState.pendingActivation.code }) b := by
  unfold markVerified
  rw [Completes.bind_getRam]
  refine .ite (fun _ => ?_) fun hno => absurd hst hno
  refine (completes_advance (p := .verifying) h hready hd hst (by decide) (by decide)
    (by decide)).bind ?_
  rintro ok b₁ ⟨rfl, hm₁, n, hcur₁⟩
  refine .ite (fun hno => absurd hno (by decide)) fun _ => ?_
  have hst₁ : b₁.ram.update.current.state = BootUpdateState.verified.code := by
    rw [hcur₁]
    rfl
  unfold markPending
  rw [Completes.bind_getRam]
  refine .ite (fun hno => absurd hno (by simp [hst₁])) fun _ => ?_
  have hwf := hm₁.inStep.current.wellFormed.withState (p := .verified) (q := .pendingActivation) hst₁
    (if recovered then BootUpdateResult.powerLossRecovered else .success).code
    (by cases recovered <;> decide) (by decide) (by decide)
  refine (completes_save hm₁.inStep (hm₁.ready hready) hm₁.healthy hwf).bind ?_
  rintro ok b₂ ⟨rfl, hd₂, hl⟩
  refine .ite (fun hno => absurd hno (by decide)) fun _ => ?_
  rw [Completes.bind_setUpdate]
  obtain ⟨j, -, hcur₂⟩ := hl.record
  have hm₂ := hm₁.trans (hl.moved hd₂)
  refine .pure ⟨rfl, ⟨hd₂, ?_, hm₂.hw, hm₂.only, hm₂.inStep.can, hm₂.inStep.current⟩, ?_⟩
  · dsimp only
    rw [hm₂.ram]
  · dsimp only
    rw [hcur₂, hcur₁]
    rfl

end BootUpdate

namespace BootUpdate.JournalOnly

variable {m m' : Nat → Byte}

theorem image (h : JournalOnly m m') : BootFlash.image m' = BootFlash.image m := by
  funext a
  unfold BootFlash.image
  split
  · rfl
  · rename_i ha
    refine h a ?_
    have hend : metadataSlotACopy0Address ≤ BootFlash.recordsEnd := by decide
    omega

theorem validate (h : JournalOnly m m') (s : SlotId) (info : BootImageInfo) :
    BootImage.validate m' s info = BootImage.validate m s info := by
  rw [← BootFlash.validate_image, h.image, BootFlash.validate_image]

end BootUpdate.JournalOnly

/-! ## Both verdicts -/

namespace BootProgramming

open BootUpdate (InStep JournalOnly Moved outcome settled)
open BootIsoTp (Responsive)

variable {b b' : Board} {t : Slot}

/-- The header is valid for the payload of the slot. -/
def Sound (mem : Nat → Byte) (t : Slot) (h : BootImageHeader) : Prop :=
  (BootImage.validate mem (some t) { BootImage.zeroInfo with header := h }).validationResult = .valid

/-- A transfer to `t` that has been closed by service 37 and not yet been verified. -/
structure Transferred (t : Slot) (b : Board) : Prop where
  configured : BootFlash.Configured b.ram.flash b.ram.programming.activeSlot t
  access : accessCheck b.ram = 0
  inStep : InStep b
  target : b.ram.programming.targetSlot = some t
  erased : b.ram.programming.eraseComplete = true
  complete : b.ram.programming.transferComplete = true
  inactive : b.ram.programming.downloadActive = false
  unverified : b.ram.programming.imageVerified = false
  state : b.ram.update.current.state = BootUpdateState.transferComplete.code
  activeCode : b.ram.update.current.activeSlot = SlotId.code b.ram.programming.activeSlot
  targetCode : b.ram.update.current.targetSlot = SlotId.code (some t)
  header : b.ram.update.current.cachedHeader = b.ram.programming.stagedHeader
  marker : ∀ i, i < flashPhraseSize → b.mem (t.header + i) = 0

/-- The header is in flash and the transaction is pending. -/
structure Published (t : Slot) (b b' : Board) : Prop where
  header : HeaderAt t b.ram.programming.stagedHeader BootImageHeader.size b'.mem
  journal : settled b'.ram.update.current = outcome { b.ram.update.current with
    state := BootUpdateState.pendingActivation.code }
  inStep : InStep b'

/-- The transaction is aborted, and the target does not boot. -/
structure Refused (t : Slot) (b' : Board) : Prop where
  state : b'.ram.update.current.state = BootUpdateState.aborted.code
  inStep : InStep b'
  slot : BootUpdate.isSlotBootable b'.ram.update t = false
  image : BootImage.isBootable b'.mem (some t) = false

theorem Published.pending (h : Published t b b') :
    b'.ram.update.current.state = BootUpdateState.pendingActivation.code := by
  have := congrArg BootUpdateJournal.state h.journal
  exact this

/-- An abort of the transaction refuses the image. -/
theorem completes_refuse {reason : BootUpdateResult} {p : BootUpdateState} (h : InStep b)
    (hready : b.ram.flash.ready = true) (hd : b.dev.Healthy)
    (hst : b.ram.update.current.state = p.code) (hp : p ≠ .idle)
    (htarget : b.ram.update.current.targetSlot = SlotId.code (some t))
    (hmarker : ∀ i, i < flashPhraseSize → b.mem (t.header + i) = 0) :
    Completes (BootUpdate.abort reason) (fun _ b' => Refused t b') b := by
  refine (BootUpdate.completes_abort h hready hd hst hp).mono ?_
  rintro ok b' ⟨-, hm, hst', htarget', -⟩
  have hhdr := t.header_lt_journal
  have hfs : flashSectorSize = 4096 := rfl
  have hps : flashPhraseSize = 8 := rfl
  have hwf := hm.inStep.current.wellFormed
  refine ⟨hst', hm.inStep, ?_, (BootImage.not_valid_of_marker fun i hi => ?_).2⟩
  · have hcode : t.code = b'.ram.update.current.targetSlot := (htarget'.trans htarget).symm
    have hne : t.code ≠ b'.ram.update.current.activeSlot := by
      rw [hcode]
      exact hwf.target_ne_active
    have hallowed : BootRecoveryPolicy.slotAllowed b'.ram.update.current t = false := by
      unfold BootRecoveryPolicy.slotAllowed
      rw [hst', beq_eq_false_iff_ne.2 hne]
      simp [BootUpdateState.code]
    unfold BootUpdate.isSlotBootable
    rw [hallowed]
    simp
  · rw [hm.only _ (.inl (by omega))]
    exact hmarker i hi

theorem headerSector_write (t : Slot) (h : BootImageHeader) (m : Nat → Byte) :
    SameOutside t.header flashSectorSize m (place t.header BootImageHeader.size h.bytes
      (place t.header flashSectorSize (fun _ => 0xFF) m)) := by
  intro a ha
  have hsize : BootImageHeader.size ≤ flashSectorSize := by decide
  rw [place_outside (by omega), place_outside ha]

/-- A write to the header sector concerns neither the payload nor the journal. -/
theorem Sound.wrote {m m' : Nat → Byte} {h : BootImageHeader} (hs : Sound m t h)
    (hm : SameOutside t.header flashSectorSize m m') : Sound m' t h := by
  unfold Sound at *
  rw [← hs]
  refine congrArg _ (BootImage.validate_congr fun a _ ha => ?_)
  exact hm a (.inl ha)

theorem inStep_of_headerSector {d : Device Note} (h : InStep b)
    (hm : SameOutside t.header flashSectorSize b.mem d.mem) : InStep (b.setDev d) := by
  have hhdr := t.header_lt_journal
  refine h.congr rfl fun a ha _ => ?_
  exact hm a (.inr (by omega))

theorem HeaderAt.journalOnly {m m' : Nat → Byte} {h : BootImageHeader} {p : Nat}
    (hh : HeaderAt t h p m) (hm : JournalOnly m m') : HeaderAt t h p m' := by
  have hhdr := t.header_lt_journal
  have heq := t.header_eq
  have hfs : flashSectorSize = 4096 := rfl
  intro i hi
  rw [hm _ (.inl (by omega))]
  exact hh i hi

/-- The erasure of the header sector followed by the header. -/
theorem completes_publish {α : Type} {active : SlotId} {h : BootImageHeader} {f : Bool → BootM α}
    {g : BootM α} {P : α → Board → Prop} (hcfg : BootFlash.Configured b.ram.flash active t)
    (hd : b.dev.Healthy)
    (hf : ∀ d : Device Note, d.Healthy → HeaderAt t h BootImageHeader.size d.mem →
      SameOutside t.header flashSectorSize b.mem d.mem → Completes (f true) P (b.setDev d)) :
    Completes (do
      if !(← BootFlash.erase t.header flashSectorSize) then g
      else f (← BootFlash.program t.header h.bytes BootImageHeader.size)) P b := by
  have hhdr := t.header_eq
  have hfs : flashSectorSize = 4096 := rfl
  have hps : flashPhraseSize = 8 := rfl
  have hss : slotSize = 229376 := rfl
  have hsize : BootImageHeader.size = 64 := rfl
  refine (BootFlash.completes_erase hcfg hd (by omega) (by omega) t.header_aligned.2).bind ?_
  rintro ok b₁ ⟨rfl, d₁, rfl, hd₁, hmem₁⟩
  refine .ite (fun hno => absurd hno (by decide)) fun _ => ?_
  refine (BootFlash.completes_program (b := b.setDev d₁) hcfg hd₁ (by decide) (by omega) (by omega)
    ?_ rfl ?_).bind ?_
  · have := t.header_aligned.2
    rw [hfs] at this
    rw [hps]
    omega
  · intro i hi
    show d₁.mem _ = _
    rw [hmem₁]
    exact place_inside (by omega)
  rintro ok b₂ ⟨rfl, d₂, rfl, hd₂, hmem₂⟩
  rw [show (b.setDev d₁).mem = d₁.mem from rfl, hmem₁] at hmem₂
  refine hf d₂ hd₂ ?_ ?_
  · rw [hmem₂]
    exact headerAt_place t h b.mem
  · rw [hmem₂]
    exact headerSector_write t h b.mem

/-- The end of `BootProgramming_Verify`, where the published header is valid. -/
theorem completes_verifyPublished {c : Context} (hin : InStep b)
    (hready : b.ram.flash.ready = true) (hd : b.dev.Healthy)
    (hst : b.ram.update.current.state = BootUpdateState.verifying.code)
    (hc : c.targetSlot = some t)
    (hvalid : (BootImage.loadInfo b.mem (some t)).validationResult = .valid) :
    Completes (verifyPublished c) (fun r b' => r = 0 ∧
      (b'.dev.Healthy ∧ b'.hw = b.hw ∧ JournalOnly b.mem b'.mem ∧ InStep b') ∧
      settled b'.ram.update.current = outcome { b.ram.update.current with
        state := BootUpdateState.pendingActivation.code } ∧
      b'.ram = { b.ram with
        update := b'.ram.update
        programming := { b.ram.programming with
          validationResult := .valid, imageVerified := true } }) b := by
  unfold verifyPublished
  rw [Completes.bind_flash, hc]
  dsimp only
  rw [hvalid, Completes.bind_setProgramming]
  refine .ite (fun hno => absurd rfl hno) fun _ => ?_
  refine .named fun b₁ hb₁ => ?_
  obtain ⟨hdev₁, hhw₁, hram₁⟩ : b₁.dev = b.dev ∧ b₁.hw = b.hw ∧ b₁.ram = { b.ram with
      programming := { b.ram.programming with
        validationResult := .valid, imageVerified := true } } := by
    rw [hb₁]
    exact ⟨rfl, rfl, rfl⟩
  have hupdate₁ : b₁.ram.update = b.ram.update := by rw [hram₁]
  have hmem₁ : b₁.mem = b.mem := congrArg Device.mem hdev₁
  have hin₁ : InStep b₁ := hin.congr hupdate₁ fun a _ _ => congrFun hmem₁ a
  have hready₁ : b₁.ram.flash.ready = true := by
    rw [hram₁]
    exact hready
  have hst₁ : b₁.ram.update.current.state = BootUpdateState.verifying.code := by rwa [hupdate₁]
  refine (BootUpdate.completes_markVerified hin₁ hready₁ (by rwa [hdev₁]) hst₁).bind ?_
  rintro ok b₂ ⟨rfl, hm, hj⟩
  refine .ite (fun _ => ?_) fun hno => absurd rfl hno
  have honly := hm.only
  rw [hmem₁] at honly
  rw [hupdate₁] at hj
  exact .pure ⟨rfl, ⟨hm.healthy, hm.hw.trans hhw₁, honly, hm.inStep⟩, hj, by rw [hm.ram, hram₁]⟩

/-- `BootProgramming_Verify` from the erasure of the header sector on. -/
theorem completes_verifyPublish {active : SlotId} {c : Context} (hin : InStep b)
    (hcfg : BootFlash.Configured b.ram.flash active t) (hd : b.dev.Healthy) (hr : Responsive b)
    (hst : b.ram.update.current.state = BootUpdateState.verifying.code)
    (hc : c.targetSlot = some t) (hs : Sound b.mem t c.stagedHeader) :
    Completes (verifyPublish c) (fun r b' => r = 0 ∧ b'.dev.Healthy ∧ Responsive b' ∧ InStep b' ∧
      HeaderAt t c.stagedHeader BootImageHeader.size b'.mem ∧
      settled b'.ram.update.current = outcome { b.ram.update.current with
        state := BootUpdateState.pendingActivation.code } ∧
      b'.ram = { b.ram with
        update := b'.ram.update
        programming := { b.ram.programming with
          validationResult := .valid, imageVerified := true } }) b := by
  unfold verifyPublish
  rw [hc]
  dsimp only
  rw [show BootSlot.getHeaderAddress (some t) = t.header from rfl]
  refine completes_publish hcfg hd fun d hd₁ hh hout => ?_
  refine .ite (fun hno => absurd hno (by decide)) fun _ => ?_
  apply Responsive.completes_transmit
  · exact hr
  refine .ite (fun hno => absurd hno (by decide)) fun _ => ?_
  have hin₁ := inStep_of_headerSector hin hout
  have hr₁ := hr.tail
  refine .named fun b₁ hb₁ => ?_
  obtain ⟨hdev₁, hram₁, hr₁⟩ : b₁.dev = d ∧ b₁.ram = b.ram ∧ Responsive b₁ := by
    rw [hb₁]
    exact ⟨rfl, rfl, hr₁⟩
  have hmem₁ : b₁.mem = d.mem := congrArg Device.mem hdev₁
  have hin₂ : InStep b₁ := hin₁.congr (congrArg Ram.update hram₁) fun a _ _ => congrFun hmem₁ a
  have hvalid₁ := BootImage.loadInfo_of_headerAt hh (hs.wrote hout)
  rw [← hram₁] at hst ⊢
  rw [← hmem₁] at hvalid₁ hh
  refine (completes_verifyPublished hin₂ (by rw [hram₁]; exact hcfg.ready) (by rwa [hdev₁]) hst hc
    hvalid₁).mono ?_
  rintro r b' ⟨rfl, ⟨hd', hhw, honly, hin'⟩, hj, hprog⟩
  refine ⟨rfl, hd', ?_, hin', HeaderAt.journalOnly hh honly, hj, hprog⟩
  unfold Responsive
  rw [hhw]
  exact hr₁

/-- The verdict of routine FF01 on a transferred image. -/
def Accepts (t : Slot) (b : Board) : Prop :=
  Sound b.mem t b.ram.programming.stagedHeader ∧ (b.ram.programming.activeSlot.isSome = true →
    BootVersion.compare b.ram.programming.stagedHeader.softwareVersion
      b.ram.programming.activeVersion = .greater)

/-- The server judges the image: the journal is in VERIFYING, and so far nothing else has changed
    but the verdict. -/
structure Judging (result : BootImageValidationResult) (b b' : Board) : Prop where
  healthy : b'.dev.Healthy
  responsive : Responsive b'
  inStep : InStep b'
  only : JournalOnly b.mem b'.mem
  record : ∃ n, b'.ram.update.current = BootJournal.completed n
    { b.ram.update.current with state := BootUpdateState.verifying.code }
  ram : b'.ram = { b.ram with
    update := b'.ram.update
    programming := { b.ram.programming with validationResult := result } }

/-- The transaction goes on to VERIFYING, after a response that is pending. -/
theorem Transferred.completes_verifying (h : Transferred t b) (hd : b.dev.Healthy) {hw : Hardware}
    (hr : Responsive { b with hw := hw }) : Completes (BootUpdate.setState .verifying)
      (fun ok b' => ok = true ∧ Judging b.ram.programming.validationResult b b')
      { b with hw := hw } := by
  refine (BootUpdate.completes_advance (p := .transferComplete) (q := .verifying)
    (b := { b with hw := hw }) ⟨h.inStep.can, h.inStep.current⟩ h.configured.ready hd h.state
    (by decide) (by decide) (by decide)).mono ?_
  rintro ok b' ⟨rfl, hm, hcur⟩
  refine ⟨rfl, hm.healthy, ?_, hm.inStep, hm.only, hcur, hm.ram⟩
  unfold Responsive
  rw [hm.hw]
  exact hr

namespace Judging

variable {result : BootImageValidationResult} {b' : Board}

/-- The verdict is stored. -/
theorem judged (h : Judging result b b') (verdict : BootImageValidationResult) :
    Judging verdict b { b' with ram := { b'.ram with
      programming := { b'.ram.programming with validationResult := verdict } } } where
  healthy := h.healthy
  responsive := h.responsive
  inStep := ⟨h.inStep.can, h.inStep.current⟩
  only := h.only
  record := h.record
  ram := by
    dsimp only
    rw [h.ram]

theorem state (h : Judging result b b') :
    b'.ram.update.current.state = BootUpdateState.verifying.code := by
  obtain ⟨n, hn⟩ := h.record
  rw [hn]
  rfl

theorem ready (h : Judging result b b') (ht : Transferred t b) : b'.ram.flash.ready = true := by
  rw [h.ram]
  exact ht.configured.ready

/-- The commit did not touch the image. -/
theorem sound_iff (h : Judging result b b') {header : BootImageHeader} :
    Sound b'.mem t header ↔ Sound b.mem t header := by
  unfold Sound
  rw [h.only.validate]

theorem completes_refuse {reason : BootUpdateResult} (h : Judging result b b')
    (ht : Transferred t b) : Completes (BootUpdate.abort reason) (fun _ c => Refused t c) b' := by
  have hhdr := t.header_lt_journal
  have hfs : flashSectorSize = 4096 := rfl
  have hps : flashPhraseSize = 8 := rfl
  refine BootProgramming.completes_refuse (p := .verifying) h.inStep (h.ready ht) h.healthy h.state
    (by decide) ?_ fun i hi => ?_
  · obtain ⟨n, hn⟩ := h.record
    rw [hn]
    exact ht.targetCode
  · rw [h.only _ (.inl (by omega))]
    exact ht.marker i hi

/-- An image that is accepted is published. -/
theorem completes_accept (h : Judging result b b') (ht : Transferred t b)
    (hs : Sound b.mem t b.ram.programming.stagedHeader) :
    Completes (do
      if !(← BootIsoTp.transmit) then return 0x72
      verifyPublish b.ram.programming) (fun r c => r = 0 ∧ Published t b c ∧ c.dev.Healthy ∧
        Responsive c ∧ c.ram = { b.ram with
          update := c.ram.update
          programming := { b.ram.programming with
            validationResult := .valid, imageVerified := true } }) b' := by
  have hsound := h.sound_iff.2 hs
  have hready : BootFlash.Configured b'.ram.flash b.ram.programming.activeSlot t := by
    rw [h.ram]
    exact ht.configured
  apply h.responsive.completes_transmit
  refine .ite (fun hno => absurd hno (by decide)) fun _ => ?_
  refine (completes_verifyPublish (b := { b' with hw := { b'.hw with
    transmits := b'.hw.transmits.tail } }) ⟨h.inStep.can, h.inStep.current⟩ hready h.healthy
    h.responsive.tail h.state ht.target hsound).mono ?_
  rintro r c ⟨rfl, hd, hr, hin, hheader, hj, hram⟩
  obtain ⟨n, hn⟩ := h.record
  dsimp only at hj hram
  rw [hn, BootUpdate.outcome_completed] at hj
  rw [h.ram] at hram
  exact ⟨rfl, ⟨hheader, hj, hin⟩, hd, hr, hram⟩

end Judging

theorem completes_verify (h : Transferred t b) (hd : b.dev.Healthy) (hr : Responsive b) :
    Completes verify (fun r b' =>
      (Accepts t b → r = 0 ∧ Published t b b' ∧ b'.dev.Healthy ∧ Responsive b' ∧
        b'.ram = { b.ram with
          update := b'.ram.update
          programming := { b.ram.programming with
            validationResult := .valid, imageVerified := true } }) ∧
      (¬ Accepts t b → r ≠ 0 ∧ Refused t b')) b := by
  unfold verify
  rw [Completes.bind_getRam]
  dsimp only
  refine .ite (fun hno => absurd h.access hno) fun _ => ?_
  refine .ite (fun hno => absurd hno ?_) fun _ => ?_
  · rw [h.erased, h.complete, h.inactive, h.unverified]
    decide
  apply hr.completes_transmit
  refine .ite (fun hno => absurd hno (by decide)) fun _ => ?_
  refine (h.completes_verifying hd hr.tail).bind ?_
  rintro ok b₁ ⟨rfl, hjudging⟩
  refine .ite (fun hno => absurd hno (by decide)) fun _ => ?_
  have hsound : Sound b₁.mem t b.ram.programming.stagedHeader ↔
      Sound b.mem t b.ram.programming.stagedHeader := hjudging.sound_iff
  rw [Completes.bind_flash, Completes.bind_setProgramming]
  generalize hresult : (BootImage.validate b₁.mem b.ram.programming.targetSlot
    { BootImage.zeroInfo with header := b.ram.programming.stagedHeader }).validationResult = result
  rw [h.target] at hresult
  have hjudged := hjudging.judged result
  refine .ite (fun hbad => ?_) fun hok => ?_
  · -- the image is not sound
    refine (hjudged.completes_refuse h).bind fun _ b' hb' => .pure ⟨fun ha =>
      absurd (hsound.2 ha.1) ?_, fun _ => ⟨by decide, hb'⟩⟩
    unfold Sound
    rwa [hresult]
  have hs := hsound.1 (hresult.trans (not_not.1 hok))
  refine .ite (fun hbad => ?_) fun hversion => ?_
  · -- it is not newer than the active one
    exact (hjudged.completes_refuse h).bind fun _ b' hb' => .pure ⟨fun ha =>
      absurd (ha.2 hbad.1) hbad.2, fun _ => ⟨by decide, hb'⟩⟩
  have haccepts : Accepts t b := by
    refine ⟨hs, fun hactive => ?_⟩
    by_contra hno
    exact hversion ⟨hactive, hno⟩
  refine (hjudged.completes_accept h hs).mono ?_
  rintro r b' hb'
  exact ⟨fun _ => hb', fun hno => absurd haccepts hno⟩

theorem published_of_marker {mem : Nat → Byte} {h : BootImageHeader}
    (hm : ∀ i, i < flashPhraseSize → mem (t.header + i) = 0) :
    BootImageInstall.published mem (some t) h = false := by
  have hno := (BootImage.not_valid_of_marker hm).1
  unfold BootImageInstall.published
  simp [hno]

/-- `BootImageInstall_ValidateAndPublish` on a slot whose header has not been published. -/
theorem completes_validateAndPublish {active : SlotId} {h : BootImageHeader} (hin : InStep b)
    (hready : b.ram.flash.ready = true) (hd : b.dev.Healthy) (hne : active ≠ some t)
    (hmarker : ∀ i, i < flashPhraseSize → b.mem (t.header + i) = 0) :
    Completes (BootImageInstall.validateAndPublish active (some t) h) (fun ok b' =>
      (BootImageInstall.accepted b.mem active (some t) h = true → ok = true ∧ b'.dev.Healthy ∧
        InStep b' ∧ HeaderAt t h BootImageHeader.size b'.mem ∧ b'.ram.update = b.ram.update ∧
        b'.ram.flash.ready = true) ∧
      (BootImageInstall.accepted b.mem active (some t) h = false → ok = false ∧ b' = b)) b := by
  unfold BootImageInstall.validateAndPublish
  rw [Completes.bind_flash, show BootSlot.getHeaderAddress (some t) = t.header from rfl]
  refine .ite (fun hno => .pure ⟨fun ha => ?_, fun _ => ⟨rfl, rfl⟩⟩) fun ha => ?_
  · rw [ha] at hno
    exact absurd hno (by decide)
  have hacc : BootImageInstall.accepted b.mem active (some t) h = true := by simpa using ha
  rw [published_of_marker hmarker]
  refine .ite (fun hno => absurd hno (by decide)) fun _ => ?_
  refine (Completes.of_runs (BootFlash.runs_configureSlots (R := fun _ _ => True) hready hne)
    hd).bind ?_
  rintro ok b₁ ⟨hd₁, rfl, rfl⟩
  refine .ite (fun hno => absurd hno (by decide)) fun _ => ?_
  refine .named fun b₁ hb₁ => ?_
  obtain ⟨hdev₁, hupdate₁, hcfg₁⟩ : b₁.dev = b.dev ∧ b₁.ram.update = b.ram.update ∧
      BootFlash.Configured b₁.ram.flash active t := by
    rw [hb₁]
    exact ⟨rfl, rfl, BootFlash.configured_spec hready hne⟩
  have hmem₁ : b₁.mem = b.mem := congrArg Device.mem hdev₁
  have hin₁ : InStep b₁ := hin.congr hupdate₁ fun a _ _ => congrFun hmem₁ a
  refine completes_publish hcfg₁ (by rwa [hdev₁]) fun d hd₂ hh hout => ?_
  refine .ite (fun hno => absurd hno (by decide)) fun _ => ?_
  rw [Completes.bind_flash]
  have hsound : Sound b₁.mem t h := by
    rw [hmem₁]
    exact (BootImageInstall.accepted_validate hacc).2
  have hvalid : (BootImage.loadInfo (b₁.setDev d).mem (some t)).validationResult = .valid :=
    BootImage.loadInfo_of_headerAt hh (hsound.wrote hout)
  rw [hvalid]
  refine .pure ⟨fun _ => ⟨rfl, hd₂, inStep_of_headerSector hin₁ hout, hh, hupdate₁, hcfg₁.ready⟩,
    fun hno => absurd (hacc.symm.trans hno) (by decide)⟩

/-- The check of the header of a transfer that recovery has taken on to VERIFYING. -/
theorem completes_revalidate {c : Board} {n : Word} (h : Transferred t b) (hin : InStep c)
    (hready : c.ram.flash.ready = true) (hd : c.dev.Healthy) (honly : JournalOnly b.mem c.mem)
    (hcurrent : c.ram.update.current = BootJournal.completed n
      { b.ram.update.current with state := BootUpdateState.verifying.code }) :
    Completes (BootUpdate.revalidate .revalidate) (fun ok c' =>
      (BootImageInstall.accepted b.mem b.ram.programming.activeSlot (some t)
        b.ram.programming.stagedHeader = true → ok = true ∧ Published t b c') ∧
      (BootImageInstall.accepted b.mem b.ram.programming.activeSlot (some t)
        b.ram.programming.stagedHeader = false → ok = false ∧ Refused t c')) c := by
  have hhdr := t.header_lt_journal
  have hfs : flashSectorSize = 4096 := rfl
  have hps : flashPhraseSize = 8 := rfl
  have hmarker : ∀ i, i < flashPhraseSize → c.mem (t.header + i) = 0 := by
    intro i hi
    rw [honly _ (.inl (by omega))]
    exact h.marker i hi
  have hstate : c.ram.update.current.state = BootUpdateState.verifying.code := by
    rw [hcurrent]
    rfl
  have htargetCode : c.ram.update.current.targetSlot = SlotId.code (some t) := by
    rw [hcurrent]
    exact h.targetCode
  have hactive : SlotId.ofCode c.ram.update.current.activeSlot = b.ram.programming.activeSlot := by
    rw [hcurrent]
    show SlotId.ofCode b.ram.update.current.activeSlot = _
    rw [h.activeCode, SlotId.ofCode_code]
  have htarget : SlotId.ofCode c.ram.update.current.targetSlot = some t := by
    rw [htargetCode, SlotId.ofCode_code]
  have hheader : c.ram.update.current.cachedHeader = b.ram.programming.stagedHeader := by
    rw [hcurrent]
    exact h.header
  have hacc : BootImageInstall.accepted c.mem b.ram.programming.activeSlot (some t)
      b.ram.programming.stagedHeader = BootImageInstall.accepted b.mem b.ram.programming.activeSlot
        (some t) b.ram.programming.stagedHeader := by
    rw [← BootFlash.accepted_image, honly.image, BootFlash.accepted_image]
  unfold BootUpdate.revalidate
  rw [Completes.bind_getRam]
  dsimp only
  rw [hactive, htarget, hheader]
  refine (completes_validateAndPublish hin hready hd h.configured.apart hmarker).bind ?_
  rintro ok c₁ ⟨hyes, hno⟩
  rw [hacc] at hyes hno
  cases hverdict : BootImageInstall.accepted b.mem b.ram.programming.activeSlot (some t)
    b.ram.programming.stagedHeader with
  | false =>
    -- the header is refused, and the transaction aborted
    obtain ⟨rfl, rfl⟩ := hno hverdict
    refine .ite (fun _ => ?_) fun hn => absurd rfl hn
    exact (completes_refuse (p := .verifying) hin hready hd hstate (by decide) htargetCode
      hmarker).bind fun _ c₂ hc₂ => .pure ⟨fun h => (by cases h), fun _ => ⟨rfl, hc₂⟩⟩
  | true =>
    -- the header is published, and the transaction goes on to its activation
    obtain ⟨rfl, hd₁, hin₁, hh, hupdate₁, hready₁⟩ := hyes hverdict
    refine .ite (fun hn => absurd hn (by decide)) fun _ => .ite (fun hn => by cases hn) fun _ => ?_
    refine (BootUpdate.completes_markVerified hin₁ hready₁ hd₁
      (by rw [hupdate₁]; exact hstate)).mono ?_
    rintro ok c₂ ⟨rfl, hm₂, hj₂⟩
    rw [hupdate₁, hcurrent, BootUpdate.outcome_completed] at hj₂
    exact ⟨fun _ => ⟨rfl, HeaderAt.journalOnly hh hm₂.only, hj₂, hm₂.inStep⟩,
      fun h => (by cases h)⟩

/-- Recovery after a transfer that was closed but not verified. -/
theorem completes_loadRecoveryState {c : Board} (h : Transferred t b) (hmem : c.mem = b.mem)
    (hready : c.ram.flash.ready = true) (hd : c.dev.Healthy) :
    Completes BootUpdate.loadRecoveryState (fun ok c' =>
      (BootImageInstall.accepted b.mem b.ram.programming.activeSlot (some t)
        b.ram.programming.stagedHeader = true → ok = true ∧ Published t b c') ∧
      (BootImageInstall.accepted b.mem b.ram.programming.activeSlot (some t)
        b.ram.programming.stagedHeader = false → ok = false ∧ Refused t c')) c := by
  obtain ⟨k, hk⟩ := h.inStep.current
  unfold BootUpdate.loadRecoveryState BootUpdate.recoverLoaded
  rw [Completes.bind_flash, hmem, hk]
  dsimp only
  rw [Completes.bind_setUpdate, Completes.bind_getRam]
  refine .named fun c₁ hc₁ => ?_
  obtain ⟨hdev₁, hram₁⟩ : c₁.dev = c.dev ∧
      c₁.ram = { c.ram with update := ⟨b.ram.update.current, true, false, false⟩ } := by
    rw [hc₁]
    exact ⟨rfl, rfl⟩
  have hmem₁ : c₁.mem = b.mem := (congrArg Device.mem hdev₁).trans hmem
  have hin₁ : InStep c₁ := by
    refine ⟨by rw [hram₁]; rfl, ?_⟩
    rw [hmem₁, hram₁]
    exact ⟨k, hk⟩
  have hready₁ : c₁.ram.flash.ready = true := by
    rw [hram₁]
    exact hready
  have hcurrent₁ : c₁.ram.update.current = b.ram.update.current := by rw [hram₁]
  -- an unverified transfer is judged again
  have haction : BootRecoveryPolicy.action true b.ram.update.current.state = .revalidate := by
    rw [h.state]
    decide
  dsimp only
  rw [haction, h.state]
  refine .ite (fun _ => ?_) fun hno => absurd rfl hno
  refine (BootUpdate.completes_advance (p := .transferComplete) (q := .verifying) hin₁ hready₁
    (by rwa [hdev₁]) (by rw [hcurrent₁]; exact h.state) (by decide) (by decide) (by decide)).bind ?_
  rintro ok c₂ ⟨rfl, hm, n, hcurrent₂⟩
  refine .ite (fun hno => absurd hno (by decide)) fun _ => ?_
  rw [hcurrent₁] at hcurrent₂
  have honly : JournalOnly b.mem c₂.mem := by
    have := hm.only
    rwa [hmem₁] at this
  exact completes_revalidate h hm.inStep (hm.ready hready₁) hm.healthy honly hcurrent₂

/-! ## Agreement -/

/-- The session runs in the context that the boot manager captured for this flash content: on a
    board whose active slot holds the same image, and boots where the routine FF00 has asked. -/
def Captured (b : Board) : Prop :=
  ∃ (e e' : Board) (request : Bool),
    BootManager.captureActiveSlot request e = .done () e' ∧
    b.ram.programming.activeSlot = e'.ram.manager.activeSlot ∧
    b.ram.programming.activeVersion = e'.ram.manager.activeVersion ∧
    ∀ s, b.ram.programming.activeSlot = some s →
      BootUpdate.isSlotBootable e.ram.update s = true ∧
      BootLifecycle.isSlotBootable e.ram.lifecycle s = true ∧
      BootImage.loadInfo e.mem (some s) = BootImage.loadInfo b.mem (some s)

/-- The captured version is that of the active image, or zero where that image is not valid. -/
theorem Captured.version (h : Captured b) {s : Slot} (hs : b.ram.programming.activeSlot = some s) :
    b.ram.programming.activeVersion =
      if (BootImage.loadInfo b.mem (some s)).valid then
        (BootImage.loadInfo b.mem (some s)).header.softwareVersion
      else 0 := by
  obtain ⟨e, e', request, hrun, hactive, hversion, hsame⟩ := h
  obtain ⟨hupdate, hlifecycle, hload⟩ := hsame s hs
  have hspec : CrashM.wp _ _ _ e := @BootManager.runs_captureActiveSlot e (fun _ _ => True) request
  obtain ⟨-, -, -, hslot, hword⟩ := wp_of_eq_done hspec hrun
  rw [hversion, hword, ← hslot, ← hactive, hs]
  have hscanned : BootManager.scanned e.ram e.mem s = BootImage.loadInfo b.mem (some s) := by
    unfold BootManager.scanned
    rw [hupdate, hlifecycle, ← hload]
    rfl
  unfold BootManager.versionOf
  dsimp only
  rw [hscanned]

/-- The active image does not load, and the image that has arrived is of version zero. -/
def Stranded (t : Slot) (b : Board) : Prop :=
  ∃ s, b.ram.programming.activeSlot = some s ∧
    (BootImage.loadInfo b.mem (some s)).valid = false ∧
    Sound b.mem t b.ram.programming.stagedHeader ∧
    b.ram.programming.stagedHeader.softwareVersion = 0

/-- What recovery accepts: its own reading of the active image decides. -/
theorem accepted_iff {mem : Nat → Byte} {active : SlotId} {h : BootImageHeader}
    (hne : active ≠ some t) : BootImageInstall.accepted mem active (some t) h = true ↔
      Sound mem t h ∧ ∀ s, active = some s → (BootImage.loadInfo mem (some s)).valid = true →
        BootVersion.compare h.softwareVersion
          (BootImage.loadInfo mem (some s)).header.softwareVersion = .greater := by
  unfold BootImageInstall.accepted Sound
  rw [if_neg (by simp [hne])]
  by_cases hs : (BootImage.validate mem (some t)
      { BootImage.zeroInfo with header := h }).validationResult = .valid
  · rw [if_neg (by simp [hs])]
    cases active with
    | none => simp [hs]
    | some s => cases hv : (BootImage.loadInfo mem (some s)).valid <;> simp [hs, hv]
  · rw [if_pos hs]
    simp [hs]

/-- Only a version of zero is not newer than no version at all. -/
theorem compare_zero (v : Word) : BootVersion.compare v 0 = .greater ↔ v ≠ 0 := by
  rw [BootVersion.compare_eq, if_neg (by simp [BitVec.lt_def])]
  constructor
  · intro h hv
    rw [hv] at h
    exact absurd h (by decide)
  · intro hv
    have hpos : (0 : Word) < v := by
      rw [BitVec.lt_def]
      have : v.toNat ≠ 0 := fun h => hv (BitVec.eq_of_toNat_eq h)
      show 0 < v.toNat
      omega
    rw [if_pos hpos]

/-- The routine accepts what recovery accepts, but for the stranded image. -/
theorem accepts_iff (h : Transferred t b) (hc : Captured b) :
    Accepts t b ↔ BootImageInstall.accepted b.mem b.ram.programming.activeSlot (some t)
      b.ram.programming.stagedHeader = true ∧ ¬ Stranded t b := by
  rw [accepted_iff h.configured.apart]
  unfold Accepts Stranded
  cases hactive : b.ram.programming.activeSlot with
  | none => simp
  | some s =>
    rw [hc.version hactive]
    cases hv : (BootImage.loadInfo b.mem (some s)).valid with
    | true => simp [hv]
    | false =>
      have hzero : BootVersion.compare b.ram.programming.stagedHeader.softwareVersion 0#32 =
          .greater ↔ ¬ b.ram.programming.stagedHeader.softwareVersion = 0#32 := compare_zero _
      simp [hv, hzero]
      tauto

/-- Routine FF01 answered `r` and left `b₁`; recovery answered `ok` and left `c₁`. -/
structure Agree (t : Slot) (b : Board) (r : Byte) (b₁ : Board) (ok : Bool) (c₁ : Board) : Prop where
  verdict : r = 0 ↔ ok = true
  published : r = 0 → Published t b b₁ ∧ Published t b c₁
  refused : r ≠ 0 → Refused t b₁ ∧ Refused t c₁

/-- Verification in the session and recovery after a reset agree on every image, unless the active
    image does not load and the version of the new one is zero. -/
theorem verdicts_agree_iff {c : Board} (h : Transferred t b) (hcap : Captured b)
    (hd : b.dev.Healthy) (hr : Responsive b) (hmem : c.mem = b.mem)
    (hready : c.ram.flash.ready = true) (hd' : c.dev.Healthy) :
    (∃ r b₁ ok c₁, verify b = .done r b₁ ∧ BootUpdate.loadRecoveryState c = .done ok c₁ ∧
      Agree t b r b₁ ok c₁) ↔ ¬ Stranded t b := by
  obtain ⟨r, b₁, hverify, hyes, hno⟩ := (completes_verify h hd hr).exists_done
  obtain ⟨ok, c₁, hrecover, hyes', hno'⟩ :=
    (completes_loadRecoveryState h hmem hready hd').exists_done
  have hiff := accepts_iff h hcap
  constructor
  · -- recovery accepts the stranded image, the routine does not
    rintro ⟨r', b₂, ok', c₂, hverify', hrecover', hagree⟩ hstranded
    cases hverify.symm.trans hverify'
    cases hrecover.symm.trans hrecover'
    have hrefused : r ≠ 0 := (hno fun ha => (hiff.1 ha).2 hstranded).1
    have haccepted : BootImageInstall.accepted b.mem b.ram.programming.activeSlot (some t)
        b.ram.programming.stagedHeader = true := by
      obtain ⟨s, hs, hvalid, hsound, -⟩ := hstranded
      refine (accepted_iff h.configured.apart).2 ⟨hsound, fun s' hs' hv => ?_⟩
      rw [hs] at hs'
      cases hs'
      rw [hvalid] at hv
      cases hv
    exact hrefused (hagree.verdict.2 (hyes' haccepted).1)
  · intro hstranded
    refine ⟨r, b₁, ok, c₁, hverify, hrecover, ?_⟩
    by_cases ha : Accepts t b
    · obtain ⟨hzero, hpub, -⟩ := hyes ha
      obtain ⟨htrue, hpub'⟩ := hyes' (hiff.1 ha).1
      exact ⟨⟨fun _ => htrue, fun _ => hzero⟩, fun _ => ⟨hpub, hpub'⟩, fun hn => absurd hzero hn⟩
    · obtain ⟨hnonzero, hrefused⟩ := hno ha
      have hnot := mt (fun hacc => hiff.2 ⟨hacc, hstranded⟩) ha
      obtain ⟨hfalse, hrefused'⟩ := hno' (by simpa using hnot)
      refine ⟨⟨fun hz => absurd hz hnonzero, fun ht => ?_⟩, fun hz => absurd hz hnonzero,
        fun _ => ⟨hrefused, hrefused'⟩⟩
      rw [hfalse] at ht
      cases ht

/-! ## A program in slot B beside a lost image in slot A -/

/-- The header of the shortest program of slot B, in two versions. -/
def arrivedHeader (version crc : Word) : BootImageHeader :=
  { BootImageHeader.zero with
    magic := BootImage.headerMagic
    headerVersion := BootImage.headerVersion
    imageSize := 8
    imageCrc32 := 0xF751C55B
    softwareVersion := version
    vectorAddress := 0x40000
    entryAddress := 0x40005
    headerCrc32 := crc }

def arrivedFields (h : BootImageHeader) : BootUpdateJournal :=
  { BootUpdateJournal.zero with
    transactionId := 1
    activeSlot := SlotId.code (some .a)
    targetSlot := SlotId.code (some .b)
    state := BootUpdateState.transferComplete.code
    targetVersion := h.softwareVersion
    expectedSize := BitVec.ofNat 32 slotSize
    committedSize := BitVec.ofNat 32 slotSize
    expectedCrc := h.imageCrc32
    flags := BootJournal.headerKnown
    cachedHeader := h }

def arrivedRecord (h : BootImageHeader) : BootUpdateJournal :=
  BootJournal.completed 1 (arrivedFields h)

/-- The payload with the marker in its header sector, and the record in the first journal copy. -/
def arrivedFlash (h : BootImageHeader) : Nat → Byte :=
  place journalCopy0Address BootUpdateJournal.size (arrivedRecord h).bytes
    (storeWords slotBHeaderAddress [0, 0]
      (storeWords slotBBaseAddress [0x20000000, 0x40005] fun _ => 0xFF))

/-- Slot A is confirmed, but its flash is erased; the transfer to slot B has been closed. -/
def arrivedBoard (h : BootImageHeader) : Board :=
  { Board.blank with
    dev := ⟨arrivedFlash h, [], []⟩
    ram := { Ram.driverReady with
      flash := BootFlash.configured Ram.driverReady.flash (some .a) .b
      update := ⟨arrivedRecord h, true, false, false⟩
      lifecycle := { Ram.startup.lifecycle with
        metadata := fun _ => { BootSlotMetadata.zero with state := BootImageState.confirmed.code }
        metadataStatus := fun s => if s = .a then .valid else .empty }
      programming := { initial Ram.startup.programming (some .a) 0 with
        sessionActive := true
        securityUnlocked := true
        eraseComplete := true
        transferComplete := true
        stagedHeader := h } } }

theorem wellFormed_arrivedFields (h : BootImageHeader) :
    BootJournal.WellFormed (arrivedFields h) where
  state := by
    show BootUpdateState.transferComplete.code ≤ _
    decide
  lastResult := by
    show (0 : Word) ≤ _
    decide
  activeSlot := ⟨some .a, rfl⟩
  targetSlot := ⟨.b, rfl⟩
  target_ne_active := by
    show SlotId.code (some .b) ≠ SlotId.code (some .a)
    decide
  expectedSize_le := by
    show (BitVec.ofNat 32 slotSize).toNat ≤ slotSize
    decide
  committedSize_le := by
    show BitVec.ofNat 32 slotSize ≤ BitVec.ofNat 32 slotSize
    decide
  lastBlockSequence := by
    show (0 : Word) ≤ 255
    decide
  flags := by
    show BootJournal.headerKnown &&& ~~~BootJournal.headerKnown = 0
    decide
  size := fun _ _ => by
    show (BitVec.ofNat 32 slotSize).toNat = slotSize
    decide
  header := fun _ _ => ⟨rfl, rfl, rfl, rfl⟩

theorem inStep_arrivedBoard (h : BootImageHeader) : InStep (arrivedBoard h) := by
  have hfirst : ∀ i, i < 128 → arrivedFlash h (FlashDriver.journalAddress 0 + i) =
      (arrivedRecord h).bytes i := by
    intro i hi
    show arrivedFlash h (journalCopy0Address + i) = _
    unfold arrivedFlash
    exact place_inside hi
  have hsecond : ∀ i, i < 128 → arrivedFlash h (FlashDriver.journalAddress 1 + i) = 0xFF := by
    intro i hi
    have h0 : journalCopy0Address = 0x78000 := rfl
    have h1 : FlashDriver.journalAddress 1 = 0x79000 := rfl
    have hheader : slotBHeaderAddress = 0x77000 := rfl
    have hbase : slotBBaseAddress = 0x40000 := rfl
    have hsize : BootUpdateJournal.size = 128 := rfl
    unfold arrivedFlash storeWords
    rw [place_outside (by omega),
      place_outside (by simp only [List.length_cons, List.length_nil]; omega),
      place_outside (by simp only [List.length_cons, List.length_nil]; omega)]
  have hcopy : BootJournal.recordFormat.copy (BootJournal.copies (arrivedFlash h) 0) =
      some (arrivedRecord h) := by
    apply BootJournal.recordFormat.copy_encode
    · exact BootJournal.validate_completed 1 (wellFormed_arrivedFields h)
    · exact hfirst
  have hnone : BootJournal.recordFormat.copy (BootJournal.copies (arrivedFlash h) (1 - 0)) =
      none := by
    apply BootJournal.recordFormat.copy_of_erased
    rw [Format.erased, decide_eq_true_eq]
    exact hsecond
  exact ⟨rfl, 0, BootJournal.recordFormat.load_of_single hcopy hnone⟩

theorem transferred_arrivedBoard (h : BootImageHeader) : Transferred .b (arrivedBoard h) where
  configured := BootFlash.configured_spec rfl (by decide)
  access := rfl
  inStep := inStep_arrivedBoard h
  target := rfl
  erased := rfl
  complete := rfl
  inactive := rfl
  unverified := rfl
  state := rfl
  activeCode := rfl
  targetCode := rfl
  header := rfl
  marker := by
    intro i hi
    show arrivedFlash h (slotBHeaderAddress + i) = 0
    have h0 : journalCopy0Address = 0x78000 := rfl
    have hheader : slotBHeaderAddress = 0x77000 := rfl
    have hps : flashPhraseSize = 8 := rfl
    unfold arrivedFlash storeWords
    rw [hps] at hi
    rw [place_outside (by omega), place_inside (by simpa using hi)]
    interval_cases i <;> rfl

/-- The boot manager keeps slot A for the active one, and knows no version of it. -/
theorem captured_arrivedBoard {h : BootImageHeader}
    (hlost : (BootImage.loadInfo (arrivedFlash h) (some .a)).valid = false) :
    Captured (arrivedBoard h) := by
  obtain ⟨b, hb⟩ : ∃ b, b = arrivedBoard h := ⟨_, rfl⟩
  have hd : b.dev.Healthy := by
    rw [hb]
    constructor <;> intro n hn <;> cases hn
  have hruns : Runs (fun _ _ => True) (BootManager.captureActiveSlot false) _ b :=
    BootManager.runs_captureActiveSlot
  obtain ⟨u, b', hrun, hspec⟩ := (Completes.of_runs hruns hd).exists_done
  obtain ⟨-, -, hslot, hversion⟩ := hspec.2
  have hupdate : BootUpdate.isSlotBootable b.ram.update .a = true := by
    rw [hb]
    rfl
  have hlifecycle : BootLifecycle.isSlotBootable b.ram.lifecycle .a = true := by
    rw [hb]
    rfl
  have hscanned : BootManager.scanned b.ram b.mem .a = BootImage.loadInfo b.mem (some .a) := by
    unfold BootManager.scanned
    rw [hupdate, hlifecycle]
    rfl
  have hlost' : (BootImage.loadInfo b.mem (some .a)).valid = false := by
    rw [hb]
    exact hlost
  -- neither slot can be selected
  have hnone : ∀ s, BootManager.priority b s = 0 := by
    intro s
    by_contra hpos
    obtain ⟨-, hlife, -, hvalid⟩ := BootManager.scanned_of_priority (Nat.pos_of_ne_zero hpos)
    cases s with
    | a =>
      rw [hlost'] at hvalid
      cases hvalid
    | b =>
      rw [hb] at hlife
      cases hlife
  have htarget : BootManager.slotOfTarget (BootManager.target b) = none := by
    rcases BootManager.target_cases b with ⟨hp, -⟩ | ⟨s, -, -, hpos, -⟩
    · rw [hp]
      rfl
    · exact absurd (hnone s) (Nat.ne_of_gt hpos)
  have hjournal : ((BootManager.scan b).ram.update.journalValid &&
      decide ((BootManager.scan b).ram.update.current.activeSlot ≤ 1)) = true ∧
      SlotId.ofCode (BootManager.scan b).ram.update.current.activeSlot = some .a := by
    rw [hb]
    exact ⟨rfl, rfl⟩
  have hactive : BootManager.activeOf b false = some .a := by
    unfold BootManager.activeOf BootManager.capturedSlot BootManager.chosenSlot
    rw [htarget]
    dsimp only
    rw [if_pos hjournal.1, hjournal.2]
    split <;> rfl
  have hprogramming : b.ram.programming.activeSlot = some .a ∧ b.ram.programming.activeVersion = 0 := by
    rw [hb]
    exact ⟨rfl, rfl⟩
  rw [← hb]
  refine ⟨b, b', false, hrun, ?_, ?_, ?_⟩
  · rw [hslot, hactive, hprogramming.1]
  · rw [hversion, hactive, hprogramming.2]
    unfold BootManager.versionOf
    dsimp only
    rw [hscanned, hlost']
    rfl
  · intro s hs
    rw [hprogramming.1] at hs
    cases hs
    exact ⟨hupdate, hlifecycle, rfl⟩

/-- A new image of version 1 is accepted by both. -/
theorem verdicts_agree_arrived :
    ∃ r b₁ ok c₁, verify (arrivedBoard (arrivedHeader 1 0x70454D12)) = .done r b₁ ∧
      BootUpdate.loadRecoveryState (arrivedBoard (arrivedHeader 1 0x70454D12)) = .done ok c₁ ∧
      Agree .b (arrivedBoard (arrivedHeader 1 0x70454D12)) r b₁ ok c₁ := by
  have hlost : (BootImage.loadInfo (arrivedFlash (arrivedHeader 1 0x70454D12)) (some .a)).valid =
      false := by
    decide +kernel
  have hversion : (arrivedHeader 1 0x70454D12).softwareVersion ≠ 0 := by decide
  have hcap := captured_arrivedBoard hlost
  have ht := transferred_arrivedBoard (arrivedHeader 1 0x70454D12)
  have hheader : (arrivedBoard (arrivedHeader 1 0x70454D12)).ram.programming.stagedHeader =
      arrivedHeader 1 0x70454D12 := rfl
  have hdev : (arrivedBoard (arrivedHeader 1 0x70454D12)).dev.Healthy := by
    constructor <;> intro n hn <;> cases hn
  have hr : Responsive (arrivedBoard (arrivedHeader 1 0x70454D12)) := by
    intro ok hok
    cases hok
  have hready : (arrivedBoard (arrivedHeader 1 0x70454D12)).ram.flash.ready = true := rfl
  generalize arrivedBoard (arrivedHeader 1 0x70454D12) = b at *
  refine (verdicts_agree_iff ht hcap hdev hr rfl hready hdev).2 ?_
  rintro ⟨s, -, -, -, hzero⟩
  rw [hheader] at hzero
  exact hversion hzero

/-- A new image of version 0 is refused in the session and accepted by recovery. -/
theorem verdicts_differ : ∃ (t : Slot) (b : Board), Transferred t b ∧ Captured b ∧
    b.dev.Healthy ∧ Responsive b ∧ ∃ r b₁ c₁, verify b = .done r b₁ ∧ r ≠ 0 ∧ Refused t b₁ ∧
      BootUpdate.loadRecoveryState b = .done true c₁ ∧ Published t b c₁ := by
  have hlost : (BootImage.loadInfo (arrivedFlash (arrivedHeader 0 0x5A6D7570)) (some .a)).valid =
      false := by
    decide +kernel
  have hsound : Sound (arrivedFlash (arrivedHeader 0 0x5A6D7570)) .b
      (arrivedHeader 0 0x5A6D7570) := by
    unfold Sound
    decide +kernel
  obtain ⟨b, hb⟩ : ∃ b, b = arrivedBoard (arrivedHeader 0 0x5A6D7570) := ⟨_, rfl⟩
  have hcap : Captured b := by
    rw [hb]
    exact captured_arrivedBoard hlost
  have ht : Transferred .b b := by
    rw [hb]
    exact transferred_arrivedBoard _
  have hd : b.dev.Healthy := by
    rw [hb]
    constructor <;> intro n hn <;> cases hn
  have hr : Responsive b := by
    rw [hb]
    intro ok hok
    cases hok
  have hready : b.ram.flash.ready = true := by
    rw [hb]
    rfl
  have hstranded : Stranded .b b := by
    rw [hb]
    exact ⟨.a, rfl, hlost, hsound, rfl⟩
  have haccepted : BootImageInstall.accepted b.mem b.ram.programming.activeSlot (some .b)
      b.ram.programming.stagedHeader = true := by
    obtain ⟨s, hs, hvalid, hs', -⟩ := hstranded
    refine (accepted_iff ht.configured.apart).2 ⟨hs', fun s' h' hv => ?_⟩
    cases hs.symm.trans h'
    cases hvalid.symm.trans hv
  obtain ⟨r, b₁, hverify, -, hno⟩ := (completes_verify ht hd hr).exists_done
  obtain ⟨ok, c₁, hrecover, hyes, -⟩ :=
    (completes_loadRecoveryState ht rfl hready hd).exists_done
  obtain ⟨rfl, hpublished⟩ := hyes haccepted
  obtain ⟨hr₁, hrefused⟩ := hno fun ha => ((accepts_iff ht hcap).1 ha).2 hstranded
  exact ⟨.b, b, ht, hcap, hd, hr, r, b₁, c₁, hverify, hr₁, hrefused, hrecover, hpublished⟩

end BootProgramming
