import BootloaderV2.Metadata
import Mathlib.Tactic.Tauto

/-!
# Slot metadata as registers

The metadata of a slot is a register like the journal, with a transition table in front of it.
Each of the writing functions replaces the current record by one of the next sequence number or
leaves it alone; the sectors of the other slot are out of its reach.
-/

open BootConfig NorFlash CrashM TwoCopy

namespace BootMetadata

/-- The field checks of `BootMetadata_Validate`, which do not concern the frame of the record. -/
structure WellFormed (r : BootSlotMetadata) : Prop where
  state : r.state ≤ BootImageState.invalid.code
  bootAttempts : r.bootAttempts ≤ maxTrialAttempts
  lastResetReason : r.lastResetReason ≤ BootResetReason.debug.code
  lastResult : r.lastResult ≤ BootLifecycleResult.metadataError.code
  failedSlot : r.failedSlot ≤ 1 ∨ r.failedSlot = SlotId.unknownCode
  rollbackTarget : r.rollbackTarget ≤ 1 ∨ r.rollbackTarget = SlotId.unknownCode
  flags : r.flags = 0
  reserved0 : r.reserved0 = 0
  reserved1 : r.reserved1 = 0
  fields : fieldsValid r = true

theorem validate_iff {slot : Slot} {r : BootSlotMetadata} :
    validate slot r = true ↔ r.magic = magic ∧ r.formatVersion = format ∧ r.slotId = slot.code ∧
      r.commitMarker = commitMarker ∧ r.metadataCrc32 = BootCrc32.calculate r.bytes crcOffset ∧
      WellFormed r := by
  simp only [validate, Bool.and_eq_true, Bool.or_eq_true, beq_iff_eq, decide_eq_true_eq]
  constructor
  · rintro ⟨⟨⟨⟨⟨⟨⟨⟨⟨⟨⟨⟨⟨⟨hm, hf⟩, hs⟩, hst⟩, hatt⟩, hrr⟩, hlr⟩, hfs⟩, hrt⟩, hfl⟩, hr0⟩, hr1⟩, hc⟩,
      hfv⟩, hcrc⟩
    exact ⟨hm, hf, hs, hc, hcrc, ⟨hst, hatt, hrr, hlr, hfs, hrt, hfl, hr0, hr1, hfv⟩⟩
  · rintro ⟨hm, hf, hs, hc, hcrc, hw⟩
    exact ⟨⟨⟨⟨⟨⟨⟨⟨⟨⟨⟨⟨⟨⟨hm, hf⟩, hs⟩, hw.state⟩, hw.bootAttempts⟩, hw.lastResetReason⟩,
      hw.lastResult⟩, hw.failedSlot⟩, hw.rollbackTarget⟩, hw.flags⟩, hw.reserved0⟩, hw.reserved1⟩,
      hc⟩, hw.fields⟩, hcrc⟩

theorem WellFormed.of_validate {slot : Slot} {r : BootSlotMetadata} (h : validate slot r = true) :
    WellFormed r :=
  (validate_iff.1 h).2.2.2.2.2

/-- The checksum does not cover the words that hold it and the marker. -/
theorem crc_bytes_congr {r r' : BootSlotMetadata} (h : ∀ k, k < 18 → r.words k = r'.words k) :
    BootCrc32.calculate r.bytes crcOffset = BootCrc32.calculate r'.bytes crcOffset := by
  refine BootCrc32.calculate_congr fun i hi => ?_
  simp only [BootSlotMetadata.bytes, Words.byteOf]
  rw [h]
  unfold crcOffset at hi
  omega

/-- The frame of a record does not bear on its fields. -/
theorem wellFormed_completed {slot : Slot} {r : BootSlotMetadata} {sequence : Word} :
    WellFormed (completed slot sequence r) ↔ WellFormed r :=
  ⟨fun h => ⟨h.state, h.bootAttempts, h.lastResetReason, h.lastResult, h.failedSlot,
    h.rollbackTarget, h.flags, h.reserved0, h.reserved1, h.fields⟩,
  fun h => ⟨h.state, h.bootAttempts, h.lastResetReason, h.lastResult, h.failedSlot,
    h.rollbackTarget, h.flags, h.reserved0, h.reserved1, h.fields⟩⟩

/-- A record with valid fields is valid once completed. -/
theorem validate_completed {r : BootSlotMetadata} (slot : Slot) (sequence : Word)
    (h : WellFormed r) : validate slot (completed slot sequence r) = true := by
  refine validate_iff.2 ⟨rfl, rfl, rfl, rfl, ?_, ?_⟩
  · refine crc_bytes_congr fun k hk => ?_
    interval_cases k <;> rfl
  · exact wellFormed_completed.2 h

theorem wellFormed_of_completed {slot : Slot} {r : BootSlotMetadata} {sequence : Word}
    (h : validate slot (completed slot sequence r) = true) : WellFormed r :=
  wellFormed_completed.1 (.of_validate h)

/-- What the metadata store of a slot holds. -/
def register (slot : Slot) (mem : Nat → Byte) : Register BootSlotMetadata :=
  (BootMetadataStorage.port slot).register (recordFormat slot) mem

/-- A command of the write of `next` to copy `k` of a slot. -/
abbrev WriteStep (slot : Slot) (k : Fin 2) (next : BootSlotMetadata) (m₀ : Nat → Byte) :
    Command → (Nat → Byte) → (Nat → Byte) → Prop :=
  (BootMetadataStorage.port slot).WriteStep (recordFormat slot) k next m₀

/-- How far the write of `next` to copy `k` of a slot has come. -/
abbrev Stage (slot : Slot) (k : Fin 2) (next : BootSlotMetadata) (m₀ m : Nat → Byte) : Prop :=
  (BootMetadataStorage.port slot).Stage (recordFormat slot) k next m₀ m

theorem recordFormat_size_le (slot : Slot) :
    (recordFormat slot).size ≤ (BootMetadataStorage.port slot).sector :=
  show metadataRecordSize ≤ flashSectorSize by decide

theorem unset_iff {slot : Slot} {mem : Nat → Byte} (h : (register slot mem).Unset) :
    ∃ l, load slot mem = l ∧ (l = .empty ∨ l = .invalid) ∧ status l ≠ .valid := by
  refine ⟨_, rfl, ?_⟩
  cases hl : load slot mem with
  | valid k r =>
    have := (recordFormat slot).register_of_load hl
    rcases h with h | h <;> exact absurd (this.symm.trans h) (by simp)
  | empty => exact ⟨.inl rfl, by decide⟩
  | invalid => exact ⟨.inr rfl, by decide⟩

section

variable {slot : Slot} {b : Board} {k : Fin 2} {old r : BootSlotMetadata}

/-- The outcome of writing `next` to copy `k`: nothing but the store of the slot changes, success is
    reported only once the record is stored, and only a fault makes the call fail. -/
structure Written (slot : Slot) (k : Fin 2) (next : BootSlotMetadata) (d : Device Note)
    (stored : (Nat → Byte) → Prop) (ok : Bool) (d' : Device Note) : Prop where
  evolves : Evolves (WriteStep slot k next d.mem) d d'
  stage : Stage slot k next d.mem d'.mem
  stored : ok = true → stored d'.mem
  fault : ok = false → ¬ d.Faultless

/-- A write after the current record `old`. -/
theorem wp_writeRecord {programming : Bool} (hready : b.ram.flash.ready = true)
    (hl : load slot b.mem = .valid k old)
    (hallowed : programming = true ∨ transitionAllowed old r = true) (hwf : WellFormed r) :
    wp (writeRecord slot r .valid programming)
      (fun res b' => ∃ d', b' = b.setDev d' ∧
        (∀ next, res = some next → next = completed slot (old.sequence + 1) r) ∧
        Written slot (1 - k) (completed slot (old.sequence + 1) r) b.dev
          (fun m => load slot m = .valid (1 - k) (completed slot (old.sequence + 1) r) ∧
            register slot m = .valid (completed slot (old.sequence + 1) r) (some old))
          res.isSome d')
      (fun b' =>
        Evolves (WriteStep slot (1 - k) (completed slot (old.sequence + 1) r) b.mem) b.dev b'.dev ∧
        Stage slot (1 - k) (completed slot (old.sequence + 1) r) b.mem b'.dev.mem ∧
        ¬ b.dev.Uncut) b := by
  have hv := validate_completed slot (old.sequence + 1) hwf
  unfold writeRecord
  rw [wp_bind, BootM.wp_flash, hl]
  dsimp only
  rw [if_neg (by simp [status]), if_neg (by rcases hallowed with h | h <;> simp [h])]
  refine wp_mono (wp_writeCopy (P := BootMetadataStorage.port slot) (F := recordFormat slot)
    (le_refl _) (show flashPhraseSize ∣ metadataRecordSize by decide) hready hv) ?_ ?_
  · rintro res b' ⟨d', rfl, hrun, hsome, hnone⟩
    refine ⟨d', rfl, fun next h => (hsome next h).1,
      ⟨hrun.evolves, hrun.stage, ?_, fun h => hnone (by simpa using h)⟩⟩
    intro hres
    obtain ⟨r', rfl⟩ := Option.isSome_iff_exists.1 hres
    obtain ⟨rfl, hw⟩ := hsome r' rfl
    exact (hw.register (recordFormat_size_le slot) hl rfl hv (le_refl _)).2 rfl
  · rintro b' ⟨hrun, hcut⟩
    exact ⟨hrun.evolves, hrun.stage, hcut⟩

/-- A transition outside the table, or a record with invalid fields, is refused. -/
theorem wp_writeRecord_refused {programming : Bool} {Q : Option BootSlotMetadata → Board → Prop}
    {C : Board → Prop} (hl : load slot b.mem = .valid k old)
    (h : (programming = false ∧ transitionAllowed old r = false) ∨ ¬ WellFormed r)
    (hQ : Q none b) : wp (writeRecord slot r .valid programming) Q C b := by
  unfold writeRecord
  rw [wp_bind, BootM.wp_flash, hl]
  dsimp only
  rw [if_neg (by simp [status]), wp_ite]
  split
  · exact (wp_pure none).2 hQ
  · rename_i hguard
    rcases h with ⟨hp, ht⟩ | hwf
    · exact absurd (by simp [hp, ht]) hguard
    · refine writeCopy_invalid ?_ hQ
      rw [← Bool.not_eq_true]
      exact fun hv => hwf (wellFormed_of_completed hv)

/-- Without a valid copy `write_record` writes copy 0. -/
theorem writeRecord_unset {programming : Bool} {Q : Option BootSlotMetadata → Board → Prop}
    {C : Board → Prop} (hu : (register slot b.mem).Unset)
    (hallowed : programming = true ∨ r.state = BootImageState.confirmed.code)
    (h : wp (writeCopy (recordFormat slot) (BootMetadataStorage.port slot) 0 (completed slot 1 r))
      Q C b) :
    wp (writeRecord slot r (status (load slot b.mem)) programming) Q C b := by
  have hguard : ¬ (!programming && r.state != BootImageState.confirmed.code) = true := by
    rcases hallowed with h | h <;> simp [h]
  unfold writeRecord
  rw [wp_bind, BootM.wp_flash, if_neg (by simp)]
  obtain ⟨l, hl, hcase, -⟩ := unset_iff hu
  rcases hcase with rfl | rfl <;> rw [hl] <;> dsimp only <;> rwa [if_neg hguard]

/-- The first write of a store in which neither copy is valid. -/
theorem wp_writeRecord_first {programming : Bool} (hready : b.ram.flash.ready = true)
    (hu : (register slot b.mem).Unset)
    (hallowed : programming = true ∨ r.state = BootImageState.confirmed.code)
    (hwf : WellFormed r) :
    wp (writeRecord slot r (status (load slot b.mem)) programming)
      (fun res b' => ∃ d', b' = b.setDev d' ∧
        Written slot 0 (completed slot 1 r) b.dev
          (fun m => register slot m = .valid (completed slot 1 r) none) res.isSome d')
      (fun b' => Evolves (WriteStep slot 0 (completed slot 1 r) b.mem) b.dev b'.dev ∧
        Stage slot 0 (completed slot 1 r) b.mem b'.dev.mem ∧ ¬ b.dev.Uncut) b := by
  have hv := validate_completed slot 1 hwf
  refine writeRecord_unset hu hallowed (wp_mono (wp_writeCopy (P := BootMetadataStorage.port slot)
    (F := recordFormat slot) (le_refl _)
    (show flashPhraseSize ∣ metadataRecordSize by decide) hready hv) ?_ ?_)
  · rintro res b' ⟨d', rfl, hrun, hsome, hnone⟩
    refine ⟨d', rfl, ⟨hrun.evolves, hrun.stage, ?_, fun h => hnone (by simpa using h)⟩⟩
    intro hres
    obtain ⟨r', rfl⟩ := Option.isSome_iff_exists.1 hres
    obtain ⟨rfl, hwr⟩ := hsome r' rfl
    exact (hwr.register_unset (recordFormat_size_le slot) hu hv (le_refl _)).2 rfl
  · rintro b' ⟨hrun, hcut⟩
    exact ⟨hrun.evolves, hrun.stage, hcut⟩

end

/-! ## The writing functions on a store with a current record -/

instance (r : BootSlotMetadata) : Decidable (WellFormed r) :=
  decidable_of_iff (validate .a (completed .a 0 r) = true)
    ⟨wellFormed_of_completed, validate_completed .a 0⟩

/-- What a call asks for, given the current record. -/
inductive Request where
  /-- The arguments or the transition table rule the call out. -/
  | refused
  /-- What the call asks for is recorded already. -/
  | recorded
  | write (next : BootSlotMetadata)

/-- A write of `next` after `old`. -/
def request (programming : Bool) (old next : BootSlotMetadata) : Request :=
  if (programming = true ∨ transitionAllowed old next = true) ∧ WellFormed next then .write next
  else .refused

/-- The calls that write a store with a current record. -/
inductive Call where
  | commit (record : BootSlotMetadata)
  | setState (state : BootImageState) (reason result : Word)
  | incrementAttempt (reason : Word)
  | installVerified (version counter reason : Word)

namespace Call

def run (slot : Slot) : Call → BootM Bool
  | commit record => Option.isSome <$> BootMetadata.commit slot record
  | setState state reason result => BootMetadata.setState slot state reason result
  | incrementAttempt reason => BootMetadata.incrementAttempt slot reason
  | installVerified version counter reason =>
    BootMetadata.installVerified slot version counter reason

def request (old : BootSlotMetadata) : Call → Request
  | commit record => BootMetadata.request false old record
  | setState state reason result =>
    if old.state = state.code then .recorded
    else BootMetadata.request false old (stateRecord old state reason result)
  | incrementAttempt reason =>
    if old.state ≠ BootImageState.trial.code ∨ maxTrialAttempts ≤ old.bootAttempts then .refused
    else BootMetadata.request false old (attemptRecord old reason)
  | installVerified version counter reason =>
    if old.state = BootImageState.verified.code ∧ old.imageVersion = version ∧
        old.updateCounter = counter then .recorded
    else BootMetadata.request true old (verifiedRecord version counter reason)

end Call

/-- The outcome of a call that returns. -/
def Request.Done (slot : Slot) (k : Fin 2) (old : BootSlotMetadata) (d : Device Note) (ok : Bool)
    (d' : Device Note) : Request → Prop
  | refused => ok = false ∧ d' = d
  | recorded => ok = true ∧ d' = d
  | write next =>
    Written slot (1 - k) (completed slot (old.sequence + 1) next) d
      (fun m => load slot m = .valid (1 - k) (completed slot (old.sequence + 1) next) ∧
        register slot m = .valid (completed slot (old.sequence + 1) next) (some old)) ok d'

/-- The outcome of a call that is cut. -/
def Request.Cut (slot : Slot) (k : Fin 2) (old : BootSlotMetadata) (d d' : Device Note) :
    Request → Prop
  | write next =>
    Evolves (WriteStep slot (1 - k) (completed slot (old.sequence + 1) next) d.mem) d d' ∧
      Stage slot (1 - k) (completed slot (old.sequence + 1) next) d.mem d'.mem ∧ ¬ d.Uncut
  | _ => False

section

variable {slot : Slot} {b : Board} {k : Fin 2} {old : BootSlotMetadata}

theorem wp_request {programming : Bool} {next : BootSlotMetadata}
    (hready : b.ram.flash.ready = true) (hl : load slot b.mem = .valid k old) :
    wp (writeRecord slot next .valid programming)
      (fun res b' => ∃ d', b' = b.setDev d' ∧
        (request programming old next).Done slot k old b.dev res.isSome d')
      (fun b' => (request programming old next).Cut slot k old b.dev b'.dev) b := by
  unfold request
  split
  · rename_i h
    refine wp_mono (wp_writeRecord hready hl h.1 h.2) ?_ fun _ hc => hc
    rintro res b' ⟨d', rfl, -, hw⟩
    exact ⟨d', rfl, hw⟩
  · rename_i h
    refine wp_writeRecord_refused hl ?_ ⟨b.dev, rfl, rfl, rfl⟩
    rw [not_and_or, not_or, Bool.not_eq_true, Bool.not_eq_true] at h
    exact h

/-- What each call does to a store with a current record. -/
theorem wp_call (c : Call) (hready : b.ram.flash.ready = true)
    (hl : load slot b.mem = .valid k old) :
    wp (c.run slot)
      (fun ok b' => ∃ d', b' = b.setDev d' ∧ (c.request old).Done slot k old b.dev ok d')
      (fun b' => (c.request old).Cut slot k old b.dev b'.dev) b := by
  have hstatus : status (load slot b.mem) = .valid := by rw [hl]; rfl
  cases c with
  | commit record => exact wp_map.2 (wp_request hready hl)
  | setState state reason result =>
    simp only [Call.run, Call.request, setState]
    rw [wp_bind, BootM.wp_flash, hl]
    dsimp only
    split
    · exact (wp_pure true).2 ⟨b.dev, rfl, rfl, rfl⟩
    · exact wp_bind.2 (wp_request hready hl)
  | incrementAttempt reason =>
    simp only [Call.run, Call.request, incrementAttempt]
    rw [wp_bind, BootM.wp_flash, hl]
    dsimp only
    split
    · exact (wp_pure false).2 ⟨b.dev, rfl, rfl, rfl⟩
    · exact wp_bind.2 (wp_request hready hl)
  | installVerified version counter reason =>
    simp only [Call.run, Call.request, installVerified]
    rw [wp_bind, BootM.wp_flash, hl]
    dsimp only
    split
    · exact (wp_pure true).2 ⟨b.dev, rfl, rfl, rfl⟩
    · exact wp_bind.2 (wp_request hready hl)

end

end BootMetadata
