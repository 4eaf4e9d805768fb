import BootloaderV2.Lib.Words

/-!
# Memory layout, slots and enumerations

The constants of `boot_config.h` and `boot_memory_contract.h`, the slot table of `boot_slot.c` and
the enumerations of the headers.  Addresses and sizes are natural numbers; what is stored on flash
is a `Word`, so an enumeration that is stored has a `code`.
-/

namespace BootConfig

def sramBaseAddress : Nat := 0x1FFF8000
def sramApplicationEndAddress : Nat := 0x20006FF0

def flashSectorSize : Nat := 0x1000
def flashPhraseSize : Nat := 8
def vectorAlignment : Nat := 0x400

def slotABaseAddress : Nat := 0x8000
def slotAHeaderAddress : Nat := 0x3F000
def slotBBaseAddress : Nat := 0x40000
def slotBHeaderAddress : Nat := 0x77000
def slotSize : Nat := 0x38000

def journalCopy0Address : Nat := 0x78000
def journalRecordSize : Nat := 128
def metadataSlotACopy0Address : Nat := 0x7A000
def metadataRecordSize : Nat := 80
def maxTrialAttempts : Word := 3

def appStartAddress : Nat := 0x8000
def appEndAddress : Nat := 0x7F000
def metadataAddress : Nat := 0x7F000
def metadataMagic : Word := 0x53394D44
def metadataValid : Word := 0x56414C49

def requestMagic : Word := 0x424F4F54
def confirmMagic : Word := 0x434F4E46
def statusMagic : Word := 0x53544154
def normalizeMagic : Word := 0x4E4F524D
def faultMagic : Word := 0x4641554C

end BootConfig

/-- `BOOT_SLOT_ID_A` and `BOOT_SLOT_ID_B`. -/
inductive Slot where
  | a
  | b
  deriving DecidableEq, Repr

/-- A slot identity; `none` is `BOOT_SLOT_ID_UNKNOWN`. -/
abbrev SlotId : Type := Option Slot

namespace Slot

def code : Slot → Word
  | a => 0
  | b => 1

def other : Slot → Slot
  | a => b
  | b => a

@[simp] theorem other_other (s : Slot) : s.other.other = s := by cases s <;> rfl

@[simp] theorem other_ne (s : Slot) : s.other ≠ s := by cases s <;> decide

@[simp] theorem ne_other (s : Slot) : s ≠ s.other := by cases s <;> decide

theorem eq_other_of_ne {s t : Slot} (h : s ≠ t) : s = t.other := by
  cases s <;> cases t <;> first | rfl | exact absurd rfl h

theorem code_injective {s t : Slot} (h : s.code = t.code) : s = t := by
  revert h
  cases s <;> cases t <;> decide

end Slot

namespace SlotId

def unknownCode : Word := 0x7FFFFFFF

def code : SlotId → Word
  | some s => s.code
  | none => unknownCode

def ofCode (w : Word) : SlotId :=
  if w = 0 then some .a else if w = 1 then some .b else none

@[simp] theorem ofCode_code (s : SlotId) : ofCode (code s) = s := by
  cases s with
  | none => rfl
  | some s => cases s <;> rfl

@[simp] theorem ofCode_slot (s : Slot) : ofCode s.code = some s := by cases s <;> rfl

theorem code_injective {s t : SlotId} (h : code s = code t) : s = t := by
  rw [← ofCode_code s, h, ofCode_code]

end SlotId

namespace BootSlot

open BootConfig

structure Descriptor where
  id : Slot
  baseAddress : Nat
  endAddress : Nat
  size : Nat
  headerAddress : Nat
  vectorAddress : Nat
  payloadEndAddress : Nat

/-- The slot table; an unknown slot has no descriptor. -/
def getDescriptor : SlotId → Option Descriptor
  | some .a => some ⟨.a, slotABaseAddress, slotABaseAddress + slotSize, slotSize,
      slotAHeaderAddress, slotABaseAddress, slotAHeaderAddress⟩
  | some .b => some ⟨.b, slotBBaseAddress, slotBBaseAddress + slotSize, slotSize,
      slotBHeaderAddress, slotBBaseAddress, slotBHeaderAddress⟩
  | none => none

def getBaseAddress (id : SlotId) : Nat := (getDescriptor id).elim 0 (·.baseAddress)

def getSize (id : SlotId) : Nat := (getDescriptor id).elim 0 (·.size)

def getHeaderAddress (id : SlotId) : Nat := (getDescriptor id).elim 0 (·.headerAddress)

def containsRange (id : SlotId) (address length : Nat) : Bool :=
  match getDescriptor id with
  | none => false
  | some d =>
    decide (length ≠ 0) && decide (d.baseAddress ≤ address) && decide (address < d.endAddress) &&
      decide (length ≤ d.endAddress - address)

def getOtherSlot (id : SlotId) : SlotId := id.map Slot.other

end BootSlot

inductive BootImageState where
  | empty | downloading | verified | pending | trial | confirmed | invalid
  deriving DecidableEq, Repr

def BootImageState.code : BootImageState → Word
  | empty => 0
  | downloading => 1
  | verified => 2
  | pending => 3
  | trial => 4
  | confirmed => 5
  | invalid => 6

inductive BootUpdateState where
  | idle | preparing | erasing | downloadReady | programming | transferComplete | verifying
  | verified | pendingActivation | aborted
  deriving DecidableEq, Repr

def BootUpdateState.code : BootUpdateState → Word
  | idle => 0
  | preparing => 1
  | erasing => 2
  | downloadReady => 3
  | programming => 4
  | transferComplete => 5
  | verifying => 6
  | verified => 7
  | pendingActivation => 8
  | aborted => 9

inductive BootUpdateResult where
  | none | success | interrupted | interruptedProgramming | eraseFailed | programFailed
  | transferFailed | verifyFailed | badImage | journalError | powerLossRecovered | commissioned
  deriving DecidableEq, Repr

def BootUpdateResult.code : BootUpdateResult → Word
  | none => 0
  | success => 1
  | interrupted => 2
  | interruptedProgramming => 3
  | eraseFailed => 4
  | programFailed => 5
  | transferFailed => 6
  | verifyFailed => 7
  | badImage => 8
  | journalError => 9
  | powerLossRecovered => 10
  | commissioned => 11

inductive BootLifecycleResult where
  | none | trialStarted | trialFailed | confirmed | rollbackOccurred | noConfirmedImage
  | metadataError
  deriving DecidableEq, Repr

def BootLifecycleResult.code : BootLifecycleResult → Word
  | none => 0
  | trialStarted => 1
  | trialFailed => 2
  | confirmed => 3
  | rollbackOccurred => 4
  | noConfirmedImage => 5
  | metadataError => 6

inductive BootResetReason where
  | unknown | powerOn | watchdog | software | external | fault | lowVoltage | clock | debug
  deriving DecidableEq, Repr

def BootResetReason.code : BootResetReason → Word
  | unknown => 0
  | powerOn => 1
  | watchdog => 2
  | software => 3
  | external => 4
  | fault => 5
  | lowVoltage => 6
  | clock => 7
  | debug => 8

def BootResetReason.ofCode (w : Word) : Option BootResetReason :=
  [unknown, powerOn, watchdog, software, external, fault, lowVoltage, clock, debug][w.toNat]?

inductive BootTarget where
  | none | slotA | slotB | programming
  deriving DecidableEq, Repr
