import BootloaderV2.Journal

/-!
# Update transactions

`boot_recovery_policy.c`, `boot_image_install.c` and `boot_update.c`: the transaction the journal
records, what a boot does with an unfinished one, and the publication of a verified header.
-/

open BootConfig CrashM TwoCopy

inductive BootRecoveryAction where
  | normal | abort | revalidate | pending | failSafe
  deriving DecidableEq, Repr

namespace BootRecoveryPolicy

def action (valid : Bool) (state : Word) : BootRecoveryAction :=
  if !valid then .failSafe
  else if state = BootUpdateState.idle.code ∨ state = BootUpdateState.aborted.code then .normal
  else if state = BootUpdateState.preparing.code ∨ state = BootUpdateState.erasing.code ∨
      state = BootUpdateState.downloadReady.code ∨ state = BootUpdateState.programming.code then
    .abort
  else if state = BootUpdateState.transferComplete.code ∨ state = BootUpdateState.verifying.code ∨
      state = BootUpdateState.verified.code then .revalidate
  else if state = BootUpdateState.pendingActivation.code then .pending
  else .failSafe

def slotAllowed (r : BootUpdateJournal) (slot : Slot) : Bool :=
  r.state == BootUpdateState.idle.code || slot.code == r.activeSlot ||
    (slot.code == r.targetSlot && r.state == BootUpdateState.pendingActivation.code)

end BootRecoveryPolicy

namespace BootImageInstall

/-- The header in flash is valid and carries the fields of `header` that identify it. -/
def published (mem : Nat → Byte) (target : SlotId) (header : BootImageHeader) : Bool :=
  let candidate := BootImage.loadInfo mem target
  candidate.validationResult == .valid && candidate.header.headerCrc32 == header.headerCrc32 &&
    candidate.header.softwareVersion == header.softwareVersion &&
    candidate.header.imageCrc32 == header.imageCrc32

/-- The checks of `BootImageInstall_ValidateAndPublish` before it publishes. -/
def accepted (mem : Nat → Byte) (active target : SlotId) (header : BootImageHeader) : Bool :=
  if active = target ∨ target = none then false
  else if (BootImage.validate mem target { BootImage.zeroInfo with header }).validationResult ≠
      .valid then false
  else if active.isSome then
    let old := BootImage.loadInfo mem active
    if old.valid then
      BootVersion.compare header.softwareVersion old.header.softwareVersion == .greater
    else true
  else true

def validateAndPublish (active target : SlotId) (header : BootImageHeader) : BootM Bool := do
  let address := BootSlot.getHeaderAddress target
  let mem ← BootM.flash
  if !accepted mem active target header then return false
  if published mem target header then return true
  if !(← BootFlash.configureSlots active target) then return false
  if !(← BootFlash.erase address flashSectorSize) then return false
  if !(← BootFlash.program address header.bytes BootImageHeader.size) then return false
  let mem ← BootM.flash
  return (BootImage.loadInfo mem target).validationResult == .valid

end BootImageInstall

namespace BootUpdate

/-- `save`: what is not durable is not claimed. -/
def save (next : BootUpdateJournal) : BootM Bool := do
  let ram ← BootM.getRam
  if ram.update.storageFault || !ram.update.journalValid then return false
  match ← BootJournal.commit next with
  | none =>
    BootM.setUpdate fun u => { u with storageFault := true }
    return false
  | some next =>
    BootM.setUpdate fun u => { u with current := next }
    return true

def canContinue (u : State) : Bool := u.journalValid && !u.storageFault

def transitionAllowed (old new : Word) : Bool :=
  if old = BootUpdateState.pendingActivation.code ∧ new = BootUpdateState.idle.code then true
  else if new = BootUpdateState.preparing.code then
    decide (old = BootUpdateState.idle.code ∨ old = BootUpdateState.aborted.code ∨
      old = BootUpdateState.pendingActivation.code)
  else if new = BootUpdateState.aborted.code then
    decide (BootUpdateState.preparing.code ≤ old ∧ old ≤ BootUpdateState.aborted.code)
  else decide (BootUpdateState.preparing.code ≤ old ∧
    old < BootUpdateState.pendingActivation.code ∧ new = old + 1)

def completeActivationHandoff : BootM Bool := do
  let ram ← BootM.getRam
  if !canContinue ram.update ||
      ram.update.current.state != BootUpdateState.pendingActivation.code then return false
  save { ram.update.current with state := BootUpdateState.idle.code }

def setState (state : BootUpdateState) : BootM Bool := do
  let ram ← BootM.getRam
  if !transitionAllowed ram.update.current.state state.code then return false
  save { ram.update.current with state := state.code }

/-- The record that commissions a journal. -/
def commissionRecord (active : SlotId) : BootUpdateJournal :=
  { BootUpdateJournal.zero with
    activeSlot := SlotId.code active
    targetSlot := if active = some .a then 1 else 0
    state := BootUpdateState.aborted.code
    lastResult := BootUpdateResult.commissioned.code }

/-- The images agree with the active slot a commissioning claims. -/
def commissionAllowed (mem : Nat → Byte) : SlotId → Bool
  | some s => (BootImage.loadInfo mem (some s)).valid
  | none => !(BootImage.loadInfo mem (some .a)).valid && !(BootImage.loadInfo mem (some .b)).valid

/-- `BootUpdate_InitializeJournal` where no journal has been found. -/
def initializeUnset (mem : Nat → Byte) (active : SlotId) : BootM Bool :=
  if !commissionAllowed mem active then return false else do
    match ← BootJournal.initializeStore (commissionRecord active) with
    | none =>
      BootM.setUpdate fun u => { u with storageFault := true }
      return false
    | some next =>
      BootM.setUpdate fun _ => ⟨next, true, false, false⟩
      return true

def initializeJournal (active : SlotId) : BootM Bool := do
  let mem ← BootM.flash
  match BootJournal.loadLatest mem with
  | .valid _ _ => return false
  | _ => initializeUnset mem active

theorem initializeJournal_unset {b : Board} {active : SlotId}
    (h : ∀ k j, BootJournal.loadLatest b.mem ≠ .valid k j) :
    initializeJournal active b = initializeUnset b.mem active b := by
  unfold initializeJournal
  -- by the hypothesis the first alternative is not taken
  simp only [bind, BootM.flash]

def isSlotBootable (u : State) (slot : Slot) : Bool :=
  if !u.journalValid || !BootRecoveryPolicy.slotAllowed u.current slot then false
  else if slot.code = u.current.targetSlot ∧ u.current.state ≠ BootUpdateState.idle.code then
    u.targetRevalidated && !u.storageFault
  else true

/-- The record a new transaction starts with. -/
def beginRecord (current : BootUpdateJournal) (active target : SlotId) (size : Nat) :
    BootUpdateJournal :=
  { BootUpdateJournal.zero with
    transactionId := current.transactionId + 1
    activeSlot := SlotId.code active
    targetSlot := SlotId.code target
    state := BootUpdateState.preparing.code
    expectedSize := BitVec.ofNat 32 size }

def beginAllowed (u : State) (active target : SlotId) (size : Nat) : Bool :=
  canContinue u && transitionAllowed u.current.state BootUpdateState.preparing.code &&
    target.isSome && target != active && size == BootSlot.getSize target &&
    active.all (isSlotBootable u) &&
    !(active == none && u.current.activeSlot != SlotId.unknownCode)

/-- `BootUpdate_Begin`. -/
def beginUpdate (active target : SlotId) (size : Nat) : BootM Bool := do
  let ram ← BootM.getRam
  if !beginAllowed ram.update active target size then return false
  if !(← save (beginRecord ram.update.current active target size)) then return false
  BootM.setUpdate fun u => { u with targetRevalidated := false }
  return true

/-- The bytes that count as durable after `programmed` bytes: whole checkpoints, and never the last
    one, whose header is in RAM only.  `expected` is the size of a slot while a transaction is being
    programmed, so the subtraction does not wrap. -/
def durableSize (programmed expected : Nat) : Nat :=
  let durable := programmed / BootJournal.checkpoint * BootJournal.checkpoint
  if expected ≤ durable then durable - BootJournal.checkpoint else durable

def setProgress (programmed : Nat) (sequence : Byte) : BootM Bool := do
  let ram ← BootM.getRam
  let next := ram.update.current
  if !canContinue ram.update || next.state != BootUpdateState.programming.code ||
      decide (next.expectedSize.toNat < programmed) then return false
  let durable := durableSize programmed next.expectedSize.toNat
  if durable ≤ next.committedSize.toNat then return true
  save { next with
    committedSize := BitVec.ofNat 32 durable
    lastBlockSequence := sequence.setWidth 32 }

def markTransferComplete (header : BootImageHeader) (sequence : Byte) : BootM Bool := do
  let ram ← BootM.getRam
  let next := ram.update.current
  if !canContinue ram.update || next.state != BootUpdateState.programming.code then return false
  save { next with
    cachedHeader := header
    flags := BootJournal.headerKnown
    targetVersion := header.softwareVersion
    expectedCrc := header.imageCrc32
    committedSize := next.expectedSize
    lastBlockSequence := sequence.setWidth 32
    state := BootUpdateState.transferComplete.code }

/-- The second half of `BootUpdate_MarkVerified`. -/
def markPending (recovered : Bool) : BootM Bool := do
  let ram ← BootM.getRam
  if ram.update.current.state != BootUpdateState.verified.code then return false
  let result := if recovered then BootUpdateResult.powerLossRecovered else .success
  if !(← save { ram.update.current with
      state := BootUpdateState.pendingActivation.code
      lastResult := result.code }) then return false
  BootM.setUpdate fun u => { u with targetRevalidated := true }
  return true

def markVerified (recovered : Bool) : BootM Bool := do
  let ram ← BootM.getRam
  if ram.update.current.state = BootUpdateState.verifying.code then
    if !(← setState .verified) then return false
    markPending recovered
  else markPending recovered

def abort (reason : BootUpdateResult) : BootM Bool := do
  BootM.setUpdate fun u => { u with targetRevalidated := false }
  let ram ← BootM.getRam
  if !transitionAllowed ram.update.current.state BootUpdateState.aborted.code then return false
  save { ram.update.current with
    state := BootUpdateState.aborted.code
    lastResult := reason.code }

/-- `BootUpdate_Current` before the journal is read. -/
def unknownJournal : BootUpdateJournal :=
  { BootUpdateJournal.zero with
    activeSlot := SlotId.unknownCode
    targetSlot := SlotId.unknownCode }

/-- The revalidation branch of `BootUpdate_LoadRecoveryState`, from the header check on. -/
def revalidate (action : BootRecoveryAction) : BootM Bool := do
  let ram ← BootM.getRam
  let current := ram.update.current
  if !(← BootImageInstall.validateAndPublish (.ofCode current.activeSlot)
      (.ofCode current.targetSlot) current.cachedHeader) then
    let _ ← abort .verifyFailed
    return false
  if action = .pending then
    BootM.setUpdate fun u => { u with targetRevalidated := true }
    return true
  markVerified true

/-- `BootUpdate_LoadRecoveryState` with the journal in RAM. -/
def recoverLoaded : BootM Bool := do
  let ram ← BootM.getRam
  let action := BootRecoveryPolicy.action ram.update.journalValid ram.update.current.state
  match action with
  | .failSafe => return false
  | .normal => return true
  | .abort =>
    abort (if ram.update.current.state = BootUpdateState.programming.code then
      .interruptedProgramming else .interrupted)
  | _ =>
    if ram.update.current.state = BootUpdateState.transferComplete.code then
      if !(← setState .verifying) then return false
      revalidate action
    else revalidate action

def loadRecoveryState : BootM Bool := do
  let mem ← BootM.flash
  match BootJournal.loadLatest mem with
  | .valid _ current => BootM.setUpdate fun _ => ⟨current, true, false, false⟩
  | _ => BootM.setUpdate fun _ => ⟨unknownJournal, false, false, false⟩
  recoverLoaded

end BootUpdate
