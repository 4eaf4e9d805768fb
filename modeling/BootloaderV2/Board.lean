import BootloaderV2.Image
import BootloaderV2.Lib.CopyWrite

/-!
# The board

The flash device, the static variables of each C module, the four retained words of SRAM and what
the environment supplies during one activation: reset flags, the request pin, the free-running CAN
timer and whether a response can be transmitted.
-/

inductive BootMetadataStatus where
  | valid | empty | invalid
  deriving DecidableEq, Repr

/-- A note in the log of the device: the jump to the image of a slot. -/
inductive Note where
  | jump (slot : Slot)
  deriving DecidableEq, Repr

/-- The static variables of `boot_flash.c` and of the RAM driver. -/
structure BootFlash.State where
  ready : Bool
  activeSlot : SlotId
  targetSlot : SlotId
  targetStart : Nat
  targetEnd : Nat

structure BootUpdate.State where
  current : BootUpdateJournal
  journalValid : Bool
  storageFault : Bool
  targetRevalidated : Bool

structure BootLifecycle.State where
  metadata : Slot → BootSlotMetadata
  metadataStatus : Slot → BootMetadataStatus
  storageFault : Bool
  currentResetReason : BootResetReason
  lastResult : Word
  failedSlot : Word
  rollbackTarget : Word
  failedVersion : Word
  lastAttemptCount : Word

structure BootManager.State where
  slotAInfo : BootImageInfo
  slotBInfo : BootImageInfo
  selectedTarget : BootTarget
  activeSlot : SlotId
  activeVersion : Word

/-- `BootProgrammingContext` and the transfer buffer. -/
structure BootProgramming.Context where
  sessionActive : Bool
  securityUnlocked : Bool
  downloadActive : Bool
  eraseComplete : Bool
  transferComplete : Bool
  imageVerified : Bool
  activeSlot : SlotId
  targetSlot : SlotId
  activeVersion : Word
  targetAddress : Nat
  targetSize : Nat
  receivedSize : Nat
  programmedSize : Nat
  expectedBlockSequenceCounter : Byte
  maxBlockLength : Nat
  bufferedSize : Nat
  validationResult : BootImageValidationResult
  stagedHeader : BootImageHeader
  transferBuffer : Nat → Byte

structure BootSecurity.State where
  seed : Word
  seedIssued : Bool
  unlocked : Bool
  nonce : Word

structure BootUds.State where
  session : Byte
  resetPending : Bool
  transferTimeout : Nat

/-- The static variables of all modules. -/
structure Ram where
  flash : BootFlash.State
  update : BootUpdate.State
  lifecycle : BootLifecycle.State
  manager : BootManager.State
  programming : BootProgramming.Context
  security : BootSecurity.State
  uds : BootUds.State

/-- The static variables as the start-up code leaves them: zero, or their initialisers. -/
def Ram.startup : Ram where
  flash := ⟨false, none, none, 0, 0⟩
  update := ⟨.zero, false, false, false⟩
  lifecycle := ⟨fun _ => .zero, fun _ => .valid, false, .unknown, 0, SlotId.unknownCode,
    SlotId.unknownCode, 0, 0⟩
  manager := ⟨BootImage.zeroInfo, BootImage.zeroInfo, .none, none, 0⟩
  programming := ⟨false, false, false, false, false, false, some .a, some .a, 0, 0, 0, 0, 0, 0, 0,
    0, .valid, .zero, fun _ => 0⟩
  security := ⟨0, false, false, 0x13579BDF⟩
  uds := ⟨0, false, 0⟩

/-- The start-up variables with the flash driver installed. -/
def Ram.driverReady : Ram :=
  { Ram.startup with flash := { Ram.startup.flash with ready := true } }

/-- The record the application and the bootloader leave each other in retained SRAM. -/
structure RetainedRecord where
  magic : Word
  inverse : Word
  data : Word
  dataInverse : Word
  deriving DecidableEq, Repr

/-- The reset flags of `RCM->SRS`. -/
structure ResetStatus where
  wdog : Bool
  por : Bool
  lockup : Bool
  sackerr : Bool
  pin : Bool
  sw : Bool
  jtag : Bool
  lvd : Bool
  loc : Bool
  lol : Bool
  deriving DecidableEq, Repr

/-- What the environment supplies: the outcomes of the coming transmissions are a list, and a
    transmission beyond its end succeeds. -/
structure Hardware where
  srs : ResetStatus
  requestPin : Bool
  canTimer : Word
  transmits : List Bool

/-- A power-on reset with the request pin low. -/
def Hardware.powerOn : Hardware :=
  ⟨⟨false, true, false, false, false, false, false, false, false, false⟩, false, 0, []⟩

structure Board where
  dev : NorFlash.Device Note
  ram : Ram
  retained : RetainedRecord
  hw : Hardware

/-- Programs of the bootloader. -/
abbrev BootM : Type → Type := CrashM Board

namespace Board

def mem (b : Board) : Nat → Byte := b.dev.mem

def setDev (b : Board) (d : NorFlash.Device Note) : Board := { b with dev := d }

@[simp] theorem setDev_dev (b : Board) (d : NorFlash.Device Note) : (b.setDev d).dev = d := rfl

@[simp] theorem setDev_ram (b : Board) (d : NorFlash.Device Note) : (b.setDev d).ram = b.ram := rfl

@[simp] theorem setDev_retained (b : Board) (d : NorFlash.Device Note) :
    (b.setDev d).retained = b.retained := rfl

@[simp] theorem setDev_hw (b : Board) (d : NorFlash.Device Note) : (b.setDev d).hw = b.hw := rfl

@[simp] theorem setDev_mem (b : Board) (d : NorFlash.Device Note) : (b.setDev d).mem = d.mem := rfl

@[simp] theorem setDev_self (b : Board) : b.setDev b.dev = b := rfl

@[simp] theorem setDev_setDev (b : Board) (d d' : NorFlash.Device Note) :
    (b.setDev d).setDev d' = b.setDev d' := rfl

/-- A board whose flash is erased, with the driver installed. -/
def blank : Board := ⟨⟨fun _ => 0xFF, [], []⟩, Ram.driverReady, ⟨0, 0, 0, 0⟩, .powerOn⟩

end Board

namespace BootM

/-- Reads the flash. -/
def flash : BootM (Nat → Byte) := fun b => .done b.mem b

/-- Runs a program of the flash device. -/
def device {α : Type} (m : CrashM (NorFlash.Device Note) α) : BootM α :=
  CrashM.zoom Board.dev Board.setDev m

def setFlash (f : BootFlash.State → BootFlash.State) : BootM Unit :=
  CrashM.modify fun b => { b with ram := { b.ram with flash := f b.ram.flash } }

def setUpdate (f : BootUpdate.State → BootUpdate.State) : BootM Unit :=
  CrashM.modify fun b => { b with ram := { b.ram with update := f b.ram.update } }

def setLifecycle (f : BootLifecycle.State → BootLifecycle.State) : BootM Unit :=
  CrashM.modify fun b => { b with ram := { b.ram with lifecycle := f b.ram.lifecycle } }

def setManager (f : BootManager.State → BootManager.State) : BootM Unit :=
  CrashM.modify fun b => { b with ram := { b.ram with manager := f b.ram.manager } }

def setProgramming (f : BootProgramming.Context → BootProgramming.Context) : BootM Unit :=
  CrashM.modify fun b => { b with ram := { b.ram with programming := f b.ram.programming } }

def setSecurity (f : BootSecurity.State → BootSecurity.State) : BootM Unit :=
  CrashM.modify fun b => { b with ram := { b.ram with security := f b.ram.security } }

def setUds (f : BootUds.State → BootUds.State) : BootM Unit :=
  CrashM.modify fun b => { b with ram := { b.ram with uds := f b.ram.uds } }

def getRam : BootM Ram := fun b => .done b.ram b

def setRetained (r : RetainedRecord) : BootM Unit := CrashM.modify fun b => { b with retained := r }

end BootM
