import BootloaderV2.Lifecycle

/-!
# The boot manager

`boot_request.c`, `boot_reset_reason.c`, `boot_jump.c` and `boot_manager.c` up to the programming
server: what one boot does from reset to the jump, the server or another reset.  The watchdog is
taken to accept its configuration; lamps and delays are left out.
-/

open BootConfig CrashM

namespace BootRequest

/-- `retained_request`. -/
def retainedRequest (b : Board) (magic : Word) : Bool :=
  b.hw.srs.sw && b.retained.magic == magic && b.retained.inverse == ~~~magic &&
    b.retained.data == ~~~b.retained.dataInverse

def getRequestedSlot (r : RetainedRecord) : SlotId :=
  if 1 < r.data ∨ r.data ≠ ~~~r.dataInverse then none else SlotId.ofCode r.data

def clearSoftwareBootRequest : BootM Unit := BootM.setRetained ⟨0, 0, 0, 0⟩

end BootRequest

namespace BootResetReason

/-- `retained`. -/
def retainedData (r : RetainedRecord) (magic : Word) : Option Word :=
  if r.magic ≠ magic ∨ r.inverse ≠ ~~~magic ∨ r.data ≠ ~~~r.dataInverse then none else some r.data

/-- `BootResetReason_Capture`. -/
def capture (b : Board) : BootResetReason :=
  let srs := b.hw.srs
  if (retainedData b.retained faultMagic).isSome then .fault
  else
    match (retainedData b.retained normalizeMagic).bind BootResetReason.ofCode with
    | some reason => reason
    | none =>
      if srs.wdog then .watchdog
      else if srs.por then .powerOn
      else if srs.lockup || srs.sackerr then .fault
      else if srs.pin then .external
      else if srs.sw then .software
      else if srs.jtag then .debug
      else if srs.lvd then .lowVoltage
      else if srs.loc || srs.lol then .clock
      else .unknown

def preserveForNormalization (reason : BootResetReason) : BootM Unit :=
  BootM.setRetained ⟨normalizeMagic, ~~~normalizeMagic, reason.code, ~~~reason.code⟩

end BootResetReason

/-- The checks of `BootJump_ToSlot` on the vectors, immediately before the jump. -/
def BootJump.vectorsValid (mem : Nat → Byte) (slot : Slot) : Bool :=
  match BootSlot.getDescriptor (some slot) with
  | none => false
  | some d =>
    let appStack := readWord mem d.vectorAddress
    let appReset := readWord mem (d.vectorAddress + 4)
    let resetAddress := appReset &&& ~~~1
    d.vectorAddress % vectorAlignment == 0 &&
      BootSlot.containsRange (some slot) d.vectorAddress 8 &&
      decide (d.vectorAddress < d.payloadEndAddress) && stackPointerValid appStack &&
      appReset != 0 && appReset != 0xFFFFFFFF && appReset &&& 1 != 0 &&
      decide (d.vectorAddress ≤ resetAddress.toNat) &&
      decide (resetAddress.toNat < d.payloadEndAddress)

/-- `BootJump_ToSlot` up to the jump, which does not return: the result tells whether it is made. -/
def BootJump.toSlot (slot : Slot) : BootM Bool := do
  let ram ← BootM.getRam
  let mem ← BootM.flash
  return BootUpdate.isSlotBootable ram.update slot && BootLifecycle.isSlotBootable ram.lifecycle slot &&
    BootImage.isBootable mem (some slot) && BootJump.vectorsValid mem slot

/-- How a boot ends. -/
inductive BootExit where
  | programming
  | reset
  | jumped (slot : Slot)
  | error
  deriving DecidableEq, Repr

namespace BootManager

def slotInfo (m : State) : Slot → BootImageInfo
  | .a => m.slotAInfo
  | .b => m.slotBInfo

/-- Slots that the journal or the metadata rule out are not even scanned. -/
def scanned (ram : Ram) (mem : Nat → Byte) (slot : Slot) : BootImageInfo :=
  if BootUpdate.isSlotBootable ram.update slot && BootLifecycle.isSlotBootable ram.lifecycle slot
  then BootImage.loadInfo mem (some slot)
  else BootImage.zeroInfo

def selectBootTarget : BootM BootTarget := do
  let ram ← BootM.getRam
  let mem ← BootM.flash
  let a := scanned ram mem .a
  let b := scanned ram mem .b
  BootM.setManager fun m => { m with slotAInfo := a, slotBInfo := b }
  BootLifecycle.select a b

def slotOfTarget : BootTarget → SlotId
  | .slotA => some .a
  | .slotB => some .b
  | _ => none

/-- The active slot where none is requested. -/
def chosenSlot (b : Board) (target : BootTarget) : SlotId :=
  match slotOfTarget target with
  | some s => some s
  | none =>
    if b.ram.update.journalValid && decide (b.ram.update.current.activeSlot ≤ 1) then
      SlotId.ofCode b.ram.update.current.activeSlot
    else none

/-- The active slot that `BootManager_CaptureActiveSlot` settles on. -/
def capturedSlot (b : Board) (target : BootTarget) (softwareRequest : Bool) : SlotId :=
  match BootRequest.getRequestedSlot b.retained with
  | some s =>
    if softwareRequest && (slotInfo b.ram.manager s).valid then some s else chosenSlot b target
  | none => chosenSlot b target

def captureActiveSlot (softwareRequest : Bool) : BootM Unit := do
  let target ← selectBootTarget
  let b ← CrashM.get
  let active := capturedSlot b target softwareRequest
  let version :=
    match active with
    | some s =>
      if (slotInfo b.ram.manager s).valid then (slotInfo b.ram.manager s).header.softwareVersion
      else 0
    | none => 0
  BootM.setManager fun m => { m with activeSlot := active, activeVersion := version }

/-- `BootManager_Init`. -/
def init : BootM Unit := do
  let b ← CrashM.get
  let resetReason := BootResetReason.capture b
  BootFlash.init
  let _ ← BootUpdate.loadRecoveryState
  let _ ← BootLifecycle.init resetReason
  BootM.setManager fun m => { m with selectedTarget := .none }

/-- State CHECK_REQUEST; the result tells whether the programming server is requested. -/
def checkRequest : BootM Bool := do
  let b ← CrashM.get
  let softwareRequest := BootRequest.retainedRequest b requestMagic
  let confirmRequest := BootRequest.retainedRequest b confirmMagic
  let hardwareRequest := b.hw.requestPin
  match if confirmRequest then BootRequest.getRequestedSlot b.retained else none with
  | some slot =>
    let _ ← BootLifecycle.confirm slot
    BootRequest.clearSoftwareBootRequest
  | none => pure ()
  captureActiveSlot softwareRequest
  if softwareRequest then BootRequest.clearSoftwareBootRequest
  return softwareRequest || hardwareRequest

/-- State CHECK_APP. -/
def checkApp : BootM SlotId := do
  let target ← selectBootTarget
  BootM.setManager fun m => { m with selectedTarget := target }
  return slotOfTarget target

/-- State JUMP_APP. -/
def jumpApp (slot : Slot) : BootM BootExit := do
  let b ← CrashM.get
  if !b.hw.srs.sw then
    BootResetReason.preserveForNormalization b.ram.lifecycle.currentResetReason
    return .reset
  if !(← BootLifecycle.prepareBoot slot) then return .error
  BootLifecycle.writeAppHandover slot
  if ← BootJump.toSlot slot then return .jumped slot
  return .error

/-- The states of `BootManager_Run` after INIT. -/
def afterInit : BootM BootExit := do
  if ← checkRequest then
    BootM.setManager fun m => { m with selectedTarget := .programming }
    return .programming
  match ← checkApp with
  | some slot => jumpApp slot
  | none =>
    BootM.setManager fun m => { m with selectedTarget := .programming }
    return .programming

/-- `BootManager_Run` from reset until the boot leaves the state machine. -/
def run : BootM BootExit := do
  init
  afterInit

end BootManager
