import BootloaderV2.Journal

/-!
# The journal as a register

A completed record is valid when its fields are, whatever its sequence number.  A commit replaces
the current record by the next one or leaves it alone, and it never touches the copy that holds the
current record.
-/

open BootConfig NorFlash CrashM TwoCopy

namespace BootJournal

/-- The field checks of `BootJournal_Validate`, which do not concern the frame of the record. -/
structure WellFormed (r : BootUpdateJournal) : Prop where
  state : r.state ≤ BootUpdateState.aborted.code
  lastResult : r.lastResult ≤ BootUpdateResult.commissioned.code
  activeSlot : ∃ s : SlotId, r.activeSlot = s.code
  targetSlot : ∃ s : Slot, r.targetSlot = s.code
  target_ne_active : r.targetSlot ≠ r.activeSlot
  expectedSize_le : r.expectedSize.toNat ≤ slotSize
  committedSize_le : r.committedSize ≤ r.expectedSize
  lastBlockSequence : r.lastBlockSequence ≤ 255
  flags : r.flags &&& ~~~headerKnown = 0
  size : BootUpdateState.preparing.code ≤ r.state →
    r.state ≤ BootUpdateState.pendingActivation.code → r.expectedSize.toNat = slotSize
  header : BootUpdateState.transferComplete.code ≤ r.state →
    r.state ≤ BootUpdateState.pendingActivation.code →
    r.flags = headerKnown ∧ r.committedSize = r.expectedSize ∧
      r.targetVersion = r.cachedHeader.softwareVersion ∧
      r.expectedCrc = r.cachedHeader.imageCrc32

theorem slot_of_le_one {w : Word} (h : ¬ 1 < w) : ∃ s : Slot, w = s.code := by
  have h2 : w.toNat ≤ 1 := by
    have : ¬ (1#32 : Word).toNat < w.toNat := h
    simpa using this
  rcases Nat.le_one_iff_eq_zero_or_eq_one.1 h2 with h0 | h1
  · exact ⟨.a, BitVec.eq_of_toNat_eq (by rw [h0]; rfl)⟩
  · exact ⟨.b, BitVec.eq_of_toNat_eq (by rw [h1]; rfl)⟩

theorem slotCode_le_one (s : Slot) : ¬ 1 < s.code := by cases s <;> decide

theorem activeSlot_iff {w : Word} :
    ¬ (1 < w ∧ w ≠ SlotId.unknownCode) ↔ ∃ s : SlotId, w = s.code := by
  constructor
  · intro h
    by_cases hw : 1 < w
    · exact ⟨none, by_contra fun hne => h ⟨hw, hne⟩⟩
    · obtain ⟨s, hs⟩ := slot_of_le_one hw
      exact ⟨some s, hs⟩
  · rintro ⟨s, rfl⟩ ⟨h1, h2⟩
    cases s with
    | none => exact h2 rfl
    | some s => exact slotCode_le_one s h1

/-- Validation is the frame of the record and its fields. -/
theorem validate_iff {r : BootUpdateJournal} :
    validate r = true ↔ r.magic = magic ∧ r.formatVersion = format ∧
      r.commitMarker = commitMarker ∧ r.journalCrc = crc r.bytes crcOffset ∧ WellFormed r := by
  constructor
  · intro h
    unfold validate at h
    split at h
    · cases h
    rename_i h1
    split at h
    · cases h
    rename_i h2
    split at h
    · cases h
    rename_i h3
    simp only [not_or, not_not, BitVec.not_lt, not_lt] at h1
    obtain ⟨hm, hf, hc, hcrc, hst, hres, hact, htgt, hne, hexp, hcom, hblk, hfl⟩ := h1
    refine ⟨hm, hf, hc, hcrc, hst, hres, activeSlot_iff.1 hact, ?_, hne, hexp, hcom, hblk, hfl, ?_,
      ?_⟩
    · exact slot_of_le_one (by simpa using htgt)
    · intro hlo hhi
      exact by_contra fun hs => h2 ⟨hlo, hhi, hs⟩
    · intro hlo hhi
      by_contra hs
      apply h3
      refine ⟨hlo, hhi, ?_⟩
      tauto
  · rintro ⟨hm, hf, hc, hcrc, hwf⟩
    unfold validate
    obtain ⟨t, ht⟩ := hwf.targetSlot
    rw [if_neg, if_neg, if_neg]
    · rintro ⟨hlo, hhi, h⟩
      have := hwf.header hlo hhi
      tauto
    · rintro ⟨hlo, hhi, h⟩
      exact h (hwf.size hlo hhi)
    · simp only [not_or, not_not, BitVec.not_lt, not_lt]
      refine ⟨hm, hf, hc, hcrc, hwf.state, hwf.lastResult, activeSlot_iff.2 hwf.activeSlot, ?_,
        hwf.target_ne_active, hwf.expectedSize_le, hwf.committedSize_le, hwf.lastBlockSequence,
        hwf.flags⟩
      simpa [ht] using slotCode_le_one t

theorem WellFormed.of_validate {r : BootUpdateJournal} (h : validate r = true) : WellFormed r :=
  (validate_iff.1 h).2.2.2.2

/-- The checksum does not cover the words that hold it and the marker. -/
theorem crc_bytes_congr {r r' : BootUpdateJournal} (h : ∀ k, k < 30 → r.words k = r'.words k) :
    crc r.bytes crcOffset = crc r'.bytes crcOffset := by
  refine crc_congr fun i hi => ?_
  simp only [BootUpdateJournal.bytes, Words.byteOf]
  rw [h]
  unfold crcOffset at hi
  omega

/-- A record with valid fields is valid once completed. -/
theorem validate_completed {r : BootUpdateJournal} (sequence : Word) (h : WellFormed r) :
    validate (completed sequence r) = true := by
  refine validate_iff.2 ⟨rfl, rfl, rfl, ?_, ?_⟩
  · refine crc_bytes_congr fun k hk => ?_
    interval_cases k <;> rfl
  · exact ⟨h.state, h.lastResult, h.activeSlot, h.targetSlot, h.target_ne_active, h.expectedSize_le,
      h.committedSize_le, h.lastBlockSequence, h.flags, h.size, h.header⟩

theorem wellFormed_of_completed {r : BootUpdateJournal} {sequence : Word}
    (h : validate (completed sequence r) = true) : WellFormed r := by
  have hw := WellFormed.of_validate h
  exact ⟨hw.state, hw.lastResult, hw.activeSlot, hw.targetSlot, hw.target_ne_active,
    hw.expectedSize_le, hw.committedSize_le, hw.lastBlockSequence, hw.flags, hw.size, hw.header⟩

theorem sequence_le (sequence : Byte) : sequence.setWidth 32 ≤ (255 : Word) := by
  rw [BitVec.le_def, BitVec.toNat_setWidth]
  exact le_trans (Nat.mod_le _ _) (Nat.le_of_lt_succ sequence.isLt)

/-- The record of a transfer under way stays well formed as it counts what has come in. -/
theorem WellFormed.progress {r : BootUpdateJournal} {n : Nat} (h : WellFormed r)
    (hst : r.state = BootUpdateState.programming.code) (hn : n ≤ r.expectedSize.toNat)
    (sequence : Byte) :
    WellFormed { r with
      committedSize := BitVec.ofNat 32 n, lastBlockSequence := sequence.setWidth 32 } := by
  refine ⟨h.state, h.lastResult, h.activeSlot, h.targetSlot, h.target_ne_active,
    h.expectedSize_le, ?_, sequence_le sequence, h.flags, h.size, fun hlo _ => ?_⟩
  · show BitVec.ofNat 32 n ≤ r.expectedSize
    rw [BitVec.le_def, BitVec.toNat_ofNat,
      Nat.mod_eq_of_lt (lt_of_le_of_lt hn r.expectedSize.isLt)]
    exact hn
  · have hlo' : BootUpdateState.transferComplete.code ≤ r.state := hlo
    rw [hst] at hlo'
    exact absurd hlo' (by decide)

/-- So does the record that ends it with the header of the image. -/
theorem WellFormed.transferComplete {r : BootUpdateJournal} (h : WellFormed r)
    (hst : r.state = BootUpdateState.programming.code) (header : BootImageHeader)
    (sequence : Byte) :
    WellFormed { r with
      cachedHeader := header, flags := headerKnown, targetVersion := header.softwareVersion,
      expectedCrc := header.imageCrc32, committedSize := r.expectedSize,
      lastBlockSequence := sequence.setWidth 32,
      state := BootUpdateState.transferComplete.code } := by
  refine ⟨show BootUpdateState.transferComplete.code ≤ _ by decide, h.lastResult, h.activeSlot,
    h.targetSlot, h.target_ne_active, h.expectedSize_le, BitVec.le_refl _, sequence_le sequence,
    show headerKnown &&& ~~~headerKnown = 0 by decide, fun _ _ => ?_,
    fun _ _ => ⟨rfl, rfl, rfl, rfl⟩⟩
  refine h.size ?_ ?_ <;> rw [hst] <;> decide

/-- What the journal holds. -/
def register (mem : Nat → Byte) : Register BootUpdateJournal :=
  BootJournalStorage.port.register recordFormat mem

/-- A command of the write of `next` to copy `k`. -/
abbrev WriteStep (k : Fin 2) (next : BootUpdateJournal) (m₀ : Nat → Byte) :
    Command → (Nat → Byte) → (Nat → Byte) → Prop :=
  BootJournalStorage.port.WriteStep recordFormat k next m₀

/-- How far the write of `next` to copy `k` has come. -/
abbrev Stage (k : Fin 2) (next : BootUpdateJournal) (m₀ m : Nat → Byte) : Prop :=
  BootJournalStorage.port.Stage recordFormat k next m₀ m

theorem recordFormat_size_le : recordFormat.size ≤ BootJournalStorage.port.sector := by decide

/-- The outcome of writing `next` to copy `k`: nothing but the journal changes, a record is returned
    only once it is stored, and only a fault makes the call fail. -/
structure Written (k : Fin 2) (next : BootUpdateJournal) (d : Device Note)
    (stored : (Nat → Byte) → Prop) (res : Option BootUpdateJournal) (d' : Device Note) : Prop where
  evolves : Evolves (WriteStep k next d.mem) d d'
  stage : Stage k next d.mem d'.mem
  stored : ∀ r, res = some r → r = next ∧ stored d'.mem
  fault : res = none → ¬ d.Faultless

section

variable {b : Board} {k : Fin 2} {prev r : BootUpdateJournal}

/-- A commit of a record with valid fields. -/
theorem wp_commit (hready : b.ram.flash.ready = true) (hl : loadLatest b.mem = .valid k prev)
    (hwf : WellFormed r) :
    wp (commit r)
      (fun res b' => ∃ d', b' = b.setDev d' ∧
        Written (1 - k) (completed (prev.sequence + 1) r) b.dev
          (fun m => loadLatest m = .valid (1 - k) (completed (prev.sequence + 1) r) ∧
            register m = .valid (completed (prev.sequence + 1) r) (some prev)) res d')
      (fun b' =>
        Evolves (WriteStep (1 - k) (completed (prev.sequence + 1) r) b.mem) b.dev b'.dev ∧
        Stage (1 - k) (completed (prev.sequence + 1) r) b.mem b'.dev.mem ∧ ¬ b.dev.Uncut) b := by
  have hv := validate_completed (prev.sequence + 1) hwf
  unfold commit commitRecord
  rw [wp_bind, BootM.wp_flash, hl]
  dsimp only
  rw [if_neg (by decide)]
  refine wp_mono (wp_writeCopy (P := BootJournalStorage.port) (F := recordFormat) (le_refl _)
    (by decide) hready hv) ?_ ?_
  · rintro res b' ⟨d', rfl, hrun, hsome, hnone⟩
    refine ⟨d', rfl, hrun.evolves, hrun.stage, ?_, hnone⟩
    intro r' hr'
    obtain ⟨rfl, hw⟩ := hsome r' hr'
    exact ⟨rfl, (hw.register recordFormat_size_le hl rfl hv (le_refl _)).2 rfl⟩
  · rintro b' ⟨hrun, hcut⟩
    exact ⟨hrun.evolves, hrun.stage, hcut⟩

/-- A commit without a current record, or of a record with invalid fields, does nothing. -/
theorem wp_commit_refused {Q : Option BootUpdateJournal → Board → Prop} {C : Board → Prop}
    (h : ¬ WellFormed r ∨ ∀ k prev, loadLatest b.mem ≠ .valid k prev) (hQ : Q none b) :
    wp (commit r) Q C b := by
  unfold commit commitRecord
  rw [wp_bind, BootM.wp_flash]
  cases hl : loadLatest b.mem with
  | valid k prev =>
    rcases h with hwf | h
    · dsimp only
      rw [if_neg (by decide)]
      refine writeCopy_invalid ?_ hQ
      rw [← Bool.not_eq_true]
      exact fun hv => hwf (wellFormed_of_completed hv)
    · exact absurd hl (h k prev)
  | empty =>
    dsimp only
    rw [if_pos (by decide)]
    exact (wp_pure none).2 hQ
  | invalid =>
    dsimp only
    rw [if_pos (by decide)]
    exact (wp_pure none).2 hQ

/-- Without a valid copy `BootJournal_Initialize` writes copy 0. -/
theorem initializeStore_unset {Q : Option BootUpdateJournal → Board → Prop} {C : Board → Prop}
    (hu : (register b.mem).Unset)
    (h : wp (writeCopy recordFormat BootJournalStorage.port 0 (completed 1 r)) Q C b) :
    wp (initializeStore r) Q C b := by
  unfold initializeStore commitRecord
  rw [wp_bind, BootM.wp_flash]
  cases hload : loadLatest b.mem with
  | valid k r' =>
    have hr := recordFormat.register_of_load hload
    rcases hu with hu | hu <;> exact absurd (hr.symm.trans hu) (by simp)
  | empty => rwa [if_neg (by decide)]
  | invalid => rwa [if_neg (by decide)]

/-- The first write of a journal in which neither copy is valid. -/
theorem wp_initializeStore (hready : b.ram.flash.ready = true) (hu : (register b.mem).Unset)
    (hwf : WellFormed r) :
    wp (initializeStore r)
      (fun res b' => ∃ d', b' = b.setDev d' ∧
        Written 0 (completed 1 r) b.dev (fun m => register m = .valid (completed 1 r) none) res d')
      (fun b' => Evolves (WriteStep 0 (completed 1 r) b.mem) b.dev b'.dev ∧
        Stage 0 (completed 1 r) b.mem b'.dev.mem ∧ ¬ b.dev.Uncut) b := by
  have hv := validate_completed 1 hwf
  refine initializeStore_unset hu (wp_mono (wp_writeCopy (P := BootJournalStorage.port)
    (F := recordFormat) (le_refl _) (by decide) hready hv) ?_
    fun _ hrun => ⟨hrun.1.evolves, hrun.1.stage, hrun.2⟩)
  rintro res b' ⟨d', rfl, hrun, hsome, hnone⟩
  refine ⟨d', rfl, hrun.evolves, hrun.stage, ?_, hnone⟩
  intro r' hr'
  obtain ⟨rfl, hwr⟩ := hsome r' hr'
  exact ⟨rfl, (hwr.register_unset recordFormat_size_le hu hv (le_refl _)).2 rfl⟩

end

end BootJournal
