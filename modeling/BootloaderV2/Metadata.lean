import BootloaderV2.FlashSpec

/-!
# Slot metadata

`boot_metadata.c`: for each slot the lifecycle of its image, kept in two copies.
-/

open BootConfig NorFlash CrashM TwoCopy

namespace BootMetadata

def magic : Word := 0x4D355642
def format : Word := 1
def commitMarker : Word := 0x534C4F54

def crcOffset : Nat := 72

def fieldsValid (r : BootSlotMetadata) : Bool :=
  if (r.state = BootImageState.pending.code ∨ r.state = BootImageState.confirmed.code ∨
      r.state = BootImageState.verified.code) ∧ r.bootAttempts ≠ 0 then false
  else if r.state = BootImageState.trial.code ∧
      (r.bootAttempts = 0 ∨ maxTrialAttempts < r.bootAttempts) then false
  else true

def validate (slot : Slot) (r : BootSlotMetadata) : Bool :=
  r.magic == magic && r.formatVersion == format && r.slotId == slot.code &&
    decide (r.state ≤ BootImageState.invalid.code) && decide (r.bootAttempts ≤ maxTrialAttempts) &&
    decide (r.lastResetReason ≤ BootResetReason.debug.code) &&
    decide (r.lastResult ≤ BootLifecycleResult.metadataError.code) &&
    (decide (r.failedSlot ≤ 1) || r.failedSlot == SlotId.unknownCode) &&
    (decide (r.rollbackTarget ≤ 1) || r.rollbackTarget == SlotId.unknownCode) &&
    r.flags == 0 && r.reserved0 == 0 && r.reserved1 == 0 && r.commitMarker == commitMarker &&
    fieldsValid r && r.metadataCrc32 == BootCrc32.calculate r.bytes crcOffset

theorem validate_marker {slot : Slot} {r : BootSlotMetadata} (h : validate slot r = true) :
    r.commitMarker = commitMarker := by
  simp only [validate, Bool.and_eq_true, beq_iff_eq] at h
  exact h.1.1.2

/-- The metadata of a slot as a two-copy record. -/
def recordFormat (slot : Slot) : Format BootSlotMetadata where
  size := metadataRecordSize
  encode := BootSlotMetadata.bytes
  decode := BootSlotMetadata.ofBytes
  valid := validate slot
  sequence := BootSlotMetadata.sequence
  size_pos := by decide
  decode_congr := BootSlotMetadata.ofBytes_congr
  decode_encode := BootSlotMetadata.ofBytes_bytes
  encode_decode b _ hi := BootSlotMetadata.bytes_ofBytes b hi
  encode_last r h := by
    show r.bytes (BootSlotMetadata.size - 1) ≠ 0xFF
    rw [BootSlotMetadata.bytes_last, validate_marker h]
    decide

/-- The two copies of a slot as they lie on flash. -/
def copies (slot : Slot) (mem : Nat → Byte) (copy : Fin 2) (i : Nat) : Byte :=
  mem (FlashDriver.metadataAddress slot copy + i)

def load (slot : Slot) (mem : Nat → Byte) : Loaded BootSlotMetadata :=
  (recordFormat slot).load (copies slot mem)

def transitionAllowed (old next : BootSlotMetadata) : Bool :=
  if old.imageVersion ≠ next.imageVersion ∨ old.updateCounter ≠ next.updateCounter then false
  else if old.state = next.state then
    decide (old.state = BootImageState.trial.code ∧ next.bootAttempts = old.bootAttempts + 1)
  else if old.state = BootImageState.verified.code ∧ next.state = BootImageState.pending.code then
    decide (next.bootAttempts = 0)
  else if old.state = BootImageState.pending.code ∧ next.state = BootImageState.trial.code then
    decide (next.bootAttempts = 1)
  else if old.state = BootImageState.trial.code ∧ next.state = BootImageState.confirmed.code then
    decide (next.bootAttempts = 0)
  else if old.state = BootImageState.trial.code ∧ next.state = BootImageState.invalid.code then
    decide (next.bootAttempts = old.bootAttempts)
  else false

/-- The record as `write_record` completes it. -/
def completed (slot : Slot) (sequence : Word) (record : BootSlotMetadata) : BootSlotMetadata :=
  let next := { record with
    magic := magic
    formatVersion := format
    slotId := slot.code
    sequence := sequence
    commitMarker := commitMarker }
  { next with metadataCrc32 := BootCrc32.calculate next.bytes crcOffset }

def status : Loaded BootSlotMetadata → BootMetadataStatus
  | .valid _ _ => .valid
  | .empty => .empty
  | .invalid => .invalid

def writeRecord (slot : Slot) (record : BootSlotMetadata) (expected : BootMetadataStatus)
    (programming : Bool) : BootM (Option BootSlotMetadata) := do
  let mem ← BootM.flash
  let loaded := load slot mem
  if status loaded ≠ expected then return none
  match loaded with
  | .valid copy old =>
    if !programming && !transitionAllowed old record then return none
    writeCopy (recordFormat slot) (BootMetadataStorage.port slot) (1 - copy)
      (completed slot (old.sequence + 1) record)
  | _ =>
    if !programming && record.state != BootImageState.confirmed.code then return none
    writeCopy (recordFormat slot) (BootMetadataStorage.port slot) 0 (completed slot 1 record)

def initializeStore (slot : Slot) (record : BootSlotMetadata) : BootM (Option BootSlotMetadata) := do
  let mem ← BootM.flash
  let loaded := load slot mem
  if status loaded = .valid then return none
  writeRecord slot record (status loaded) (record.state == BootImageState.verified.code)

def commit (slot : Slot) (record : BootSlotMetadata) : BootM (Option BootSlotMetadata) :=
  writeRecord slot record .valid false

/-- The record `BootMetadata_InstallVerified` writes. -/
def verifiedRecord (version counter reason : Word) : BootSlotMetadata :=
  { BootSlotMetadata.zero with
    imageVersion := version
    state := BootImageState.verified.code
    updateCounter := counter
    lastResetReason := reason
    failedSlot := SlotId.unknownCode
    rollbackTarget := SlotId.unknownCode }

def installVerified (slot : Slot) (version counter reason : Word) : BootM Bool := do
  let mem ← BootM.flash
  let loaded := load slot mem
  match loaded with
  | .valid _ old =>
    if old.state = BootImageState.verified.code ∧ old.imageVersion = version ∧
        old.updateCounter = counter then return true
    return (← writeRecord slot (verifiedRecord version counter reason) .valid true).isSome
  | _ =>
    return (← writeRecord slot (verifiedRecord version counter reason) (status loaded) true).isSome

/-- The record `BootMetadata_SetState` commits. -/
def stateRecord (r : BootSlotMetadata) (state : BootImageState) (reason result : Word) :
    BootSlotMetadata :=
  let next := { r with state := state.code, lastResetReason := reason, lastResult := result }
  match state with
  | .trial => { next with bootAttempts := 1, lastAttemptCount := 1 }
  | .confirmed =>
    { next with
      bootAttempts := 0
      successfulBoots := next.successfulBoots + 1
      lastAttemptCount := 0 }
  | _ => next

def setState (slot : Slot) (state : BootImageState) (reason result : Word) : BootM Bool := do
  let mem ← BootM.flash
  match load slot mem with
  | .valid _ r =>
    if r.state = state.code then return true
    return (← commit slot (stateRecord r state reason result)).isSome
  | _ => return false

/-- The record `BootMetadata_IncrementAttempt` commits. -/
def attemptRecord (r : BootSlotMetadata) (reason : Word) : BootSlotMetadata :=
  { r with
    bootAttempts := r.bootAttempts + 1
    lastAttemptCount := r.bootAttempts + 1
    lastResetReason := reason
    lastResult := BootLifecycleResult.trialStarted.code }

def incrementAttempt (slot : Slot) (reason : Word) : BootM Bool := do
  let mem ← BootM.flash
  match load slot mem with
  | .valid _ r =>
    if r.state ≠ BootImageState.trial.code ∨ maxTrialAttempts ≤ r.bootAttempts then return false
    return (← commit slot (attemptRecord r reason)).isSome
  | _ => return false

end BootMetadata
