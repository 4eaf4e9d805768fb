import BootloaderV2.Board

/-!
# The flash driver and its facade

`flash_driver.c` runs from SRAM and owns the write window; `boot_flash.c` checks every call against
the configured slots.  The driver skips phrases that are erased anyway and compares what it reads
back after each phrase.
-/

open BootConfig NorFlash CrashM

namespace FlashDriver

def rangeOk (f : BootFlash.State) (address size : Nat) : Bool :=
  decide (size ≠ 0) && decide (f.targetStart ≤ address) && decide (address < f.targetEnd) &&
    decide (size ≤ f.targetEnd - address)

def setWindow (start stop : Nat) : BootM Unit :=
  BootM.setFlash fun f => { f with targetStart := start, targetEnd := stop }

/-- `FlashDriver_Init`; the command controller is taken to be idle. -/
def init (active target : SlotId) : BootM Bool := do
  setWindow 0 0
  match target with
  | none => return false
  | some t =>
    if active = some t then return false
    setWindow (BootSlot.getBaseAddress target) (BootSlot.getBaseAddress target + slotSize)
    return true

def verify (address : Nat) (data : Nat → Byte) (size : Nat) : BootM Bool := do
  let ram ← BootM.getRam
  if !rangeOk ram.flash address size then return false
  let mem ← BootM.flash
  return decide (∀ i, i < size → mem (address + i) = data i)

def erase (address size : Nat) : BootM Bool := do
  let ram ← BootM.getRam
  if !rangeOk ram.flash address size || size != flashSectorSize ||
      address % flashSectorSize != 0 then return false
  if !(← BootM.device (issue (.erase address size))) then return false
  let mem ← BootM.flash
  return decide (∀ i, i < size → mem (address + i) = 0xFF)

/-- Erased phrases are not programmed. -/
def programPhrase (address : Nat) (phrase : Nat → Byte) : BootM Bool :=
  if TwoCopy.blank phrase flashPhraseSize then pure true
  else BootM.device (issue (.program address flashPhraseSize phrase))

/-- The loop over the phrases of `FlashDriver_Program`. -/
def programLoop (address : Nat) (data : Nat → Byte) : Nat → Nat → BootM Bool
  | _, 0 => return true
  | offset, n + 1 => do
    if !(← programPhrase (address + offset) fun i => data (offset + i)) then return false
    if !(← verify (address + offset) (fun i => data (offset + i)) flashPhraseSize) then return false
    programLoop address data (offset + flashPhraseSize) n

/-- `FlashDriver_Program`; callers pass data that lies in SRAM. -/
def program (address : Nat) (data : Nat → Byte) (size : Nat) : BootM Bool := do
  let ram ← BootM.getRam
  if !rangeOk ram.flash address size || address % flashPhraseSize != 0 ||
      size % flashPhraseSize != 0 then return false
  programLoop address data 0 (size / flashPhraseSize)

/-- Runs `m` with a window of its own and restores the inactive slot's window. -/
def withWindow (start stop : Nat) (m : BootM Bool) : BootM Bool := do
  let ram ← BootM.getRam
  setWindow start stop
  let result ← m
  setWindow ram.flash.targetStart ram.flash.targetEnd
  return result

def journalAddress (copy : Fin 2) : Nat := journalCopy0Address + copy.val * flashSectorSize

def journalErase (copy : Fin 2) : BootM Bool :=
  withWindow (journalAddress copy) (journalAddress copy + flashSectorSize)
    (erase (journalAddress copy) flashSectorSize)

def journalProgram (copy : Fin 2) (offset : Nat) (data : Nat → Byte) (size : Nat) : BootM Bool :=
  if journalRecordSize ≤ offset ∨ journalRecordSize - offset < size then return false
  else withWindow (journalAddress copy) (journalAddress copy + journalRecordSize)
    (program (journalAddress copy + offset) data size)

def slotIndex : Slot → Nat
  | .a => 0
  | .b => 1

def metadataAddress (slot : Slot) (copy : Fin 2) : Nat :=
  metadataSlotACopy0Address + (slotIndex slot * 2 + copy.val) * flashSectorSize

def metadataErase (slot : Slot) (copy : Fin 2) : BootM Bool :=
  withWindow (metadataAddress slot copy) (metadataAddress slot copy + flashSectorSize)
    (erase (metadataAddress slot copy) flashSectorSize)

def metadataProgram (slot : Slot) (copy : Fin 2) (offset : Nat) (data : Nat → Byte) (size : Nat) :
    BootM Bool :=
  if metadataRecordSize ≤ offset ∨ metadataRecordSize - offset < size then return false
  else withWindow (metadataAddress slot copy) (metadataAddress slot copy + metadataRecordSize)
    (program (metadataAddress slot copy + offset) data size)

end FlashDriver

namespace BootFlash

/-- `api_valid`: the driver image in SRAM is the one `BootFlash_Init` copied there. -/
def apiValid (f : State) : Bool := f.ready

/-- `BootFlash_Init`, which ends with `init(UNKNOWN, 0)`. -/
def init : BootM Unit := do
  BootM.setFlash fun f => { f with ready := false, activeSlot := none, targetSlot := none }
  BootM.setFlash fun f => { f with ready := true }
  let ok ← FlashDriver.init none (some .a)
  BootM.setFlash fun f => { f with ready := ok }

def configureSlots (active target : SlotId) : BootM Bool := do
  BootM.setFlash fun f => { f with activeSlot := none, targetSlot := none }
  let ram ← BootM.getRam
  if !apiValid ram.flash || target.isNone || active == target then return false
  if !(← FlashDriver.init active target) then return false
  BootM.setFlash fun f => { f with activeSlot := active, targetSlot := target }
  return true

def isRangeValid (f : State) (address size : Nat) : Bool :=
  f.targetSlot != f.activeSlot && f.targetSlot.isSome &&
    BootSlot.containsRange f.targetSlot address size

def erase (address size : Nat) : BootM Bool := do
  let ram ← BootM.getRam
  if !apiValid ram.flash || !isRangeValid ram.flash address size || size != flashSectorSize ||
      address % flashSectorSize != 0 then return false
  FlashDriver.erase address size

def program (address : Nat) (data : Nat → Byte) (size : Nat) : BootM Bool := do
  let ram ← BootM.getRam
  if !apiValid ram.flash || !isRangeValid ram.flash address size ||
      address % flashPhraseSize != 0 || size % flashPhraseSize != 0 then return false
  FlashDriver.program address data size

end BootFlash

namespace BootJournalStorage

def erase (copy : Fin 2) : BootM Bool := do
  let ram ← BootM.getRam
  if !BootFlash.apiValid ram.flash then return false
  FlashDriver.journalErase copy

def program (copy : Fin 2) (offset : Nat) (data : Nat → Byte) (size : Nat) : BootM Bool := do
  let ram ← BootM.getRam
  if !BootFlash.apiValid ram.flash then return false
  FlashDriver.journalProgram copy offset data size

end BootJournalStorage

namespace BootMetadataStorage

def erase (slot : Slot) (copy : Fin 2) : BootM Bool := do
  let ram ← BootM.getRam
  if !BootFlash.apiValid ram.flash then return false
  FlashDriver.metadataErase slot copy

def program (slot : Slot) (copy : Fin 2) (offset : Nat) (data : Nat → Byte) (size : Nat) :
    BootM Bool := do
  let ram ← BootM.getRam
  if !BootFlash.apiValid ram.flash then return false
  FlashDriver.metadataProgram slot copy offset data size

end BootMetadataStorage
