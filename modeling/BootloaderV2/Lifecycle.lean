import BootloaderV2.Metadata
import BootloaderV2.Update

/-!
# The boot lifecycle

`boot_policy.c` and `boot_lifecycle.c`: the handover of a finished transaction to the slot metadata,
the trial of a new image, its confirmation or rollback, and the choice of the image to start.
-/

open BootConfig CrashM TwoCopy

namespace BootPolicy

def lifecyclePriority (state : Word) : Nat :=
  if state = BootImageState.trial.code then 3
  else if state = BootImageState.pending.code then 2
  else if state = BootImageState.confirmed.code then 1
  else 0

def selectLifecycle (a : BootImageInfo) (sa : Word) (b : BootImageInfo) (sb : Word) : BootTarget :=
  let pa := if a.valid then lifecyclePriority sa else 0
  let pb := if b.valid then lifecyclePriority sb else 0
  if pa ≠ 0 ∧ pb = 0 then .slotA
  else if pa = 0 ∧ pb ≠ 0 then .slotB
  else if pa = 0 ∧ pb = 0 then .programming
  else if pb < pa then .slotA
  else if pa < pb then .slotB
  else if BootVersion.compare a.header.softwareVersion b.header.softwareVersion = .less then .slotB
  else .slotA

end BootPolicy

namespace BootLifecycle

def confirmedRecord (slot : Slot) (version counter reason : Word) : BootSlotMetadata :=
  { BootSlotMetadata.zero with
    slotId := slot.code
    imageVersion := version
    state := BootImageState.confirmed.code
    updateCounter := counter
    lastResetReason := reason
    failedSlot := SlotId.unknownCode
    rollbackTarget := SlotId.unknownCode }

/-- The loads of `reload`; a record that is not valid leaves the old one in RAM. -/
def reloaded (l : State) (mem : Nat → Byte) : State :=
  { l with
    metadata := fun s =>
      match BootMetadata.load s mem with
      | .valid _ r => r
      | _ => l.metadata s
    metadataStatus := fun s => BootMetadata.status (BootMetadata.load s mem) }

theorem reloaded_metadata (l : State) (mem : Nat → Byte) (s : Slot) :
    (reloaded l mem).metadata s =
      match BootMetadata.load s mem with
      | .valid _ r => r
      | _ => l.metadata s := by
  unfold reloaded
  dsimp only

def reload : BootM Unit := do
  let mem ← BootM.flash
  BootM.setLifecycle fun l => reloaded l mem

def imageValid (mem : Nat → Byte) (slot : Slot) : Bool :=
  let info := BootImage.loadInfo mem (some slot)
  info.validationResult == .valid && info.valid

def setStorageFault : BootM Unit := BootM.setLifecycle fun l => { l with storageFault := true }

def initializeConfirmed (slot : Slot) (image : BootImageInfo) (counter : Word) : BootM Bool := do
  let ram ← BootM.getRam
  let r := confirmedRecord slot image.header.softwareVersion counter
    ram.lifecycle.currentResetReason.code
  if (← BootMetadata.initializeStore slot r).isSome then return true
  setStorageFault
  return false

/-- Hands a verified target over: its metadata becomes VERIFIED and PENDING, then the journal IDLE. -/
def handOver (target : Slot) (targetImage : BootImageInfo) : BootM Bool := do
  let ram ← BootM.getRam
  let l := ram.lifecycle
  let version := targetImage.header.softwareVersion
  let counter := ram.update.current.transactionId
  let reason := l.currentResetReason.code
  if !(l.metadataStatus target == .valid &&
      (l.metadata target).state == BootImageState.pending.code &&
      (l.metadata target).imageVersion == version &&
      (l.metadata target).updateCounter == counter) then
    if !(← BootMetadata.installVerified target version counter reason) then
      setStorageFault
      return false
    if !(← BootMetadata.setState target .pending reason BootLifecycleResult.none.code) then
      setStorageFault
      return false
    if ← BootUpdate.completeActivationHandoff then return true
    setStorageFault
    return false
  else
    if ← BootUpdate.completeActivationHandoff then return true
    setStorageFault
    return false

/-- The active slot of a pending transaction must be confirmed; a slot without metadata becomes so. -/
def confirmActive (active : Slot) : BootM Bool := do
  let mem ← BootM.flash
  if !imageValid mem active then return false
  let ram ← BootM.getRam
  let l := ram.lifecycle
  if l.metadataStatus active = .empty then
    initializeConfirmed active (BootImage.loadInfo mem (some active))
      ram.update.current.transactionId
  else if l.metadataStatus active ≠ .valid ∨
      (l.metadata active).state ≠ BootImageState.confirmed.code then
    setStorageFault
    return false
  else return true

/-- `reconcile_journal` in state PENDING_ACTIVATION. -/
def reconcilePending (active target : SlotId) : BootM Bool := do
  let mem ← BootM.flash
  match target with
  | none => return false
  | some target =>
    if !imageValid mem target then return false
    reload
    match active with
    | none => handOver target (BootImage.loadInfo mem (some target))
    | some active =>
      if !(← confirmActive active) then return false
      handOver target (BootImage.loadInfo mem (some target))

/-- `reconcile_journal` after a commissioning. -/
def reconcileCommissioned (active : SlotId) : BootM Bool := do
  match active with
  | none => return true
  | some active =>
    reload
    let mem ← BootM.flash
    let ram ← BootM.getRam
    if ram.lifecycle.metadataStatus active = .empty ∧ imageValid mem active then
      initializeConfirmed active (BootImage.loadInfo mem (some active))
        ram.update.current.transactionId
    else return true

/-- `reconcile_journal`. -/
def reconcileJournal : BootM Bool := do
  let ram ← BootM.getRam
  let u := ram.update
  if !u.journalValid || u.storageFault then
    setStorageFault
    return false
  if u.current.state = BootUpdateState.pendingActivation.code then
    reconcilePending (.ofCode u.current.activeSlot) (.ofCode u.current.targetSlot)
  else if u.current.state = BootUpdateState.aborted.code ∧
      u.current.lastResult = BootUpdateResult.commissioned.code then
    reconcileCommissioned (.ofCode u.current.activeSlot)
  else return true

/-- The slot whose record `capture_diagnostics` reports. -/
def diagnosticSlot (l : State) : SlotId :=
  let validA := l.metadataStatus .a == .valid
  let validB := l.metadataStatus .b == .valid
  if validA then
    if validB && (decide ((l.metadata .a).updateCounter < (l.metadata .b).updateCounter) ||
        ((l.metadata .b).updateCounter == (l.metadata .a).updateCounter &&
          sequenceNewer (l.metadata .b).sequence (l.metadata .a).sequence)) then some .b
    else some .a
  else if validB then some .b
  else none

def captured (l : State) : State :=
  match diagnosticSlot l with
  | none =>
    { l with
      lastResult := BootLifecycleResult.none.code
      failedSlot := SlotId.unknownCode
      rollbackTarget := SlotId.unknownCode
      failedVersion := 0
      lastAttemptCount := 0 }
  | some s =>
    { l with
      lastResult := (l.metadata s).lastResult
      failedSlot := (l.metadata s).failedSlot
      rollbackTarget := (l.metadata s).rollbackTarget
      failedVersion := (l.metadata s).failedVersion
      lastAttemptCount := (l.metadata s).lastAttemptCount }

def captureDiagnostics : BootM Unit := BootM.setLifecycle captured

/-- The slot that a failed trial of `slot` falls back to. -/
def fallbackSlot (l : State) (mem : Nat → Byte) (slot : Slot) : SlotId :=
  if l.metadataStatus slot.other ≠ .valid ∨
      (l.metadata slot.other).state ≠ BootImageState.confirmed.code ∨
      !imageValid mem slot.other then none
  else some slot.other

/-- The record that ends the trial of a slot. -/
def failedRecord (r : BootSlotMetadata) (slot : Slot) (fallback : SlotId) (reason : Word) :
    BootSlotMetadata :=
  { r with
    state := BootImageState.invalid.code
    lastResetReason := reason
    lastResult := (if fallback = none then BootLifecycleResult.trialFailed
      else .rollbackOccurred).code
    failedSlot := slot.code
    failedVersion := r.imageVersion
    lastAttemptCount := r.bootAttempts
    rollbackTarget := SlotId.code fallback }

def setMetadata (slot : Slot) (r : BootSlotMetadata) : BootM Unit :=
  BootM.setLifecycle fun l => { l with metadata := Function.update l.metadata slot r }

/-- One turn of the loop of `resolve_exhausted_trials`. -/
def resolveExhaustedTrial (slot : Slot) : BootM Bool := do
  let mem ← BootM.flash
  let ram ← BootM.getRam
  let l := ram.lifecycle
  if l.metadataStatus slot = .valid ∧ (l.metadata slot).state = BootImageState.trial.code ∧
      maxTrialAttempts ≤ (l.metadata slot).bootAttempts then
    let r := failedRecord (l.metadata slot) slot (fallbackSlot l mem slot) l.currentResetReason.code
    setMetadata slot r
    match ← BootMetadata.commit slot r with
    | none =>
      setStorageFault
      return false
    | some r =>
      setMetadata slot r
      return true
  else return true

def resolveExhaustedTrials : BootM Bool := do
  if !(← resolveExhaustedTrial .a) then return false
  resolveExhaustedTrial .b

def init (reason : BootResetReason) : BootM Bool := do
  BootM.setLifecycle fun l => { l with currentResetReason := reason, storageFault := false }
  if !(← reconcileJournal) then
    reload
    captureDiagnostics
    return false
  reload
  let ram ← BootM.getRam
  if ram.lifecycle.metadataStatus .a = .invalid ∧ ram.lifecycle.metadataStatus .b = .invalid then
    setStorageFault
    captureDiagnostics
    return false
  if !(← resolveExhaustedTrials) then
    reload
    captureDiagnostics
    return false
  reload
  captureDiagnostics
  return true

/-- The choice of `BootLifecycle_Select`. -/
def selected (l : State) (a b : BootImageInfo) : BootTarget :=
  if l.storageFault then .programming
  else
    let state := fun s =>
      if l.metadataStatus s = .valid then (l.metadata s).state else BootImageState.empty.code
    BootPolicy.selectLifecycle a (state .a) b (state .b)

def select (a b : BootImageInfo) : BootM BootTarget := do
  let ram ← BootM.getRam
  let target := selected ram.lifecycle a b
  if target = .programming ∧ ram.lifecycle.storageFault = false then
    BootM.setLifecycle fun l =>
      { l with lastResult := BootLifecycleResult.noConfirmedImage.code }
    return target
  else return target

def prepareBoot (slot : Slot) : BootM Bool := do
  reload
  let ram ← BootM.getRam
  let l := ram.lifecycle
  let reason := l.currentResetReason.code
  if l.metadataStatus slot ≠ .valid then return false
  if (l.metadata slot).state = BootImageState.pending.code then
    if !(← BootMetadata.setState slot .trial reason BootLifecycleResult.trialStarted.code) then
      setStorageFault
      return false
    reload
    captureDiagnostics
    return true
  else if (l.metadata slot).state = BootImageState.trial.code then
    if !(← BootMetadata.incrementAttempt slot reason) then
      setStorageFault
      return false
    reload
    captureDiagnostics
    return true
  else if (l.metadata slot).state ≠ BootImageState.confirmed.code then return false
  else
    reload
    captureDiagnostics
    return true

def targetOf : Slot → BootTarget
  | .a => .slotA
  | .b => .slotB

def confirm (slot : Slot) : BootM Bool := do
  reload
  let ram ← BootM.getRam
  let l := ram.lifecycle
  if l.metadataStatus slot ≠ .valid then return false
  if (l.metadata slot).state = BootImageState.confirmed.code then return true
  if (l.metadata slot).state ≠ BootImageState.trial.code then return false
  let mem ← BootM.flash
  let target ← select (BootImage.loadInfo mem (some .a)) (BootImage.loadInfo mem (some .b))
  if target ≠ targetOf slot then return false
  if !(← BootMetadata.setState slot .confirmed l.currentResetReason.code
      BootLifecycleResult.confirmed.code) then
    setStorageFault
    return false
  reload
  captureDiagnostics
  return true

def isSlotBootable (l : State) (slot : Slot) : Bool :=
  !l.storageFault && l.metadataStatus slot == .valid &&
    BootPolicy.lifecyclePriority (l.metadata slot).state != 0

def canStartUpdate (l : State) (active target : SlotId) : Bool :=
  if target = none ∨ target = active ∨ l.storageFault then false
  else
    match active with
    | none => l.metadataStatus .a != .valid && l.metadataStatus .b != .valid
    | some s => l.metadataStatus s == .valid && (l.metadata s).state == BootImageState.confirmed.code

/-- `BootLifecycle_WriteAppHandover`. -/
def writeAppHandover (slot : Slot) : BootM Unit := do
  reload
  let ram ← BootM.getRam
  let l := ram.lifecycle
  let data := slot.code ||| ((l.metadata slot).state &&& 0xFF) <<< 8 |||
    (l.currentResetReason.code &&& 0xFF) <<< 16
  BootM.setRetained ⟨statusMagic, ~~~statusMagic, data, ~~~data⟩

end BootLifecycle
