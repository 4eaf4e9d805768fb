import BootloaderV2.Crc32
import BootloaderV2.Records

/-!
# Image validation

`boot_version.c`, `boot_firmware.c`, `boot_check.c` and `boot_image.c`: what makes a slot's contents
a bootable image.  All functions read the flash only.
-/

open BootConfig

/-- The word of flash at an address. -/
def readWord (mem : Nat → Byte) (address : Nat) : Word := Words.wordOf (fun i => mem (address + i)) 0

inductive BootVersionCompareResult where
  | less | equal | greater
  deriving DecidableEq, Repr

namespace BootVersion

/-- The loop over the four parts, the highest first. -/
def compareFrom (left right : Word) : List Nat → BootVersionCompareResult
  | [] => .equal
  | shift :: shifts =>
    let leftPart := (left >>> shift) &&& 0xFF
    let rightPart := (right >>> shift) &&& 0xFF
    if leftPart < rightPart then .less
    else if rightPart < leftPart then .greater
    else compareFrom left right shifts

def compare (left right : Word) : BootVersionCompareResult :=
  compareFrom left right [24, 16, 8, 0]

/-- `BOOT_VERSION_ENCODE(major, minor, patch, 0)`. -/
def fromLegacy (legacyVersion : Word) : Word :=
  ((legacyVersion >>> 16) &&& 0xFF) <<< 24 ||| ((legacyVersion >>> 8) &&& 0xFF) <<< 16 |||
    (legacyVersion &&& 0xFF) <<< 8

end BootVersion

structure BootFirmwareMetadata where
  magic : Word
  firmwareSize : Word
  firmwareCrc : Word
  firmwareVersion : Word
  validFlag : Word
  reserved : Word

def BootFirmware.readMetadata (mem : Nat → Byte) : BootFirmwareMetadata :=
  ⟨readWord mem metadataAddress, readWord mem (metadataAddress + 4),
    readWord mem (metadataAddress + 8), readWord mem (metadataAddress + 12),
    readWord mem (metadataAddress + 16), readWord mem (metadataAddress + 20)⟩

/-- `initial_msp` lies in SRAM and is aligned. -/
def stackPointerValid (msp : Word) : Bool :=
  !(msp == 0 || msp == 0xFFFFFFFF || decide (msp.toNat < sramBaseAddress) ||
    decide (sramApplicationEndAddress < msp.toNat) || msp &&& 7 != 0)

/-- `Boot_IsApplicationValid`. -/
def bootIsApplicationValid (mem : Nat → Byte) : Bool :=
  let initialMsp := readWord mem appStartAddress
  let resetHandler := readWord mem (appStartAddress + 4)
  let resetAddress := resetHandler &&& ~~~1
  let metadata := BootFirmware.readMetadata mem
  if resetHandler == 0 || resetHandler == 0xFFFFFFFF || !stackPointerValid initialMsp then false
  else if resetHandler &&& 1 == 0 || decide (resetAddress.toNat < appStartAddress) ||
      decide (appEndAddress ≤ resetAddress.toNat) then false
  else if metadata.magic != BootConfig.metadataMagic || metadata.validFlag != metadataValid ||
      metadata.firmwareSize == 0 ||
      decide (appEndAddress - appStartAddress < metadata.firmwareSize.toNat) then false
  else BootCrc32.calculate (fun i => mem (appStartAddress + i)) metadata.firmwareSize.toNat ==
    metadata.firmwareCrc

inductive BootImageValidationResult where
  | valid | validLegacy | errInvalidArgument | errSlotId | errHeaderAddress | errEmpty | errMagic
  | errHeaderVersion | errHeaderCrc | errSize | errAddressRange | errVector | errStackPointer
  | errResetHandler | errEntryMismatch | errImageCrc
  deriving DecidableEq, Repr

structure BootImageInfo where
  slotId : SlotId
  slotBase : Nat
  slotSize : Nat
  headerAddress : Nat
  payloadAddress : Nat
  vectorAddress : Nat
  initialMsp : Word
  resetHandler : Word
  header : BootImageHeader
  validationResult : BootImageValidationResult
  valid : Bool
  legacyFormat : Bool

namespace BootImage

def headerMagic : Word := 0x42493256
def headerVersion : Word := 1
def headerCrcLength : Nat := 60

/-- `BootImage_ClearInfo`. -/
def clearInfo : BootImageInfo :=
  ⟨none, 0, 0, 0, 0, 0, 0, 0, .zero, .errInvalidArgument, false, false⟩

/-- An information block with all bytes zero. -/
def zeroInfo : BootImageInfo := ⟨some .a, 0, 0, 0, 0, 0, 0, 0, .zero, .valid, false, false⟩

def headerIsErased (header : BootImageHeader) : Bool := header.toList.all (· == 0xFFFFFFFF)

def headerIsZero (header : BootImageHeader) : Bool := header.toList.all (· == 0)

/-- `BootImage_LoadLegacySlotA` on an information block already located at slot A. -/
def loadLegacySlotA (mem : Nat → Byte) (info : BootImageInfo) : BootImageInfo :=
  let metadata := BootFirmware.readMetadata mem
  let msp := readWord mem slotABaseAddress
  let reset := readWord mem (slotABaseAddress + 4)
  let resetAddress := reset &&& ~~~1
  if metadata.firmwareSize == 0 ||
      decide (slotAHeaderAddress - slotABaseAddress < metadata.firmwareSize.toNat) then
    { info with validationResult := .errSize }
  else if slotAHeaderAddress ≤ resetAddress.toNat then
    { info with validationResult := .errResetHandler }
  else if !bootIsApplicationValid mem then
    { info with validationResult := .errImageCrc }
  else
    { info with
      header := { info.header with
        magic := BootConfig.metadataMagic
        headerVersion := 0
        imageSize := metadata.firmwareSize
        imageCrc32 := metadata.firmwareCrc
        softwareVersion := BootVersion.fromLegacy metadata.firmwareVersion
        buildId := 0
        vectorAddress := BitVec.ofNat 32 slotABaseAddress
        entryAddress := reset }
      initialMsp := msp
      resetHandler := reset
      validationResult := .validLegacy
      valid := true
      legacyFormat := true }

/-- `BootImage_ReadHeader`; the slot table keeps every header inside its slot. -/
def readHeader (mem : Nat → Byte) (d : BootSlot.Descriptor) : BootImageHeader :=
  .ofBytes fun i => mem (d.headerAddress + i)

def validateHeader (slot : SlotId) (header : BootImageHeader) : BootImageValidationResult :=
  match BootSlot.getDescriptor slot with
  | none => .errSlotId
  | some d =>
    if !BootSlot.containsRange slot d.headerAddress BootImageHeader.size ||
        decide (d.headerAddress < d.payloadEndAddress) then .errHeaderAddress
    else if headerIsErased header || headerIsZero header then .errEmpty
    else if header.magic ≠ headerMagic then .errMagic
    else if header.headerVersion ≠ headerVersion then .errHeaderVersion
    else if header.imageSize = 0 ∨ d.payloadEndAddress - d.vectorAddress < header.imageSize.toNat
      then .errSize
    else if BootCrc32.calculate header.bytes headerCrcLength ≠ header.headerCrc32 then .errHeaderCrc
    else if header.vectorAddress.toNat ≠ d.vectorAddress ∨
        header.vectorAddress.toNat % vectorAlignment ≠ 0 ∨
        !BootSlot.containsRange slot header.vectorAddress.toNat 8 ∨
        d.payloadEndAddress ≤ header.vectorAddress.toNat then .errVector
    else if d.payloadEndAddress < (header.vectorAddress + header.imageSize).toNat then
      .errAddressRange
    else .valid

/-- `BootImage_ValidatePayload`, with the initial stack pointer and the reset handler once they are
    read. -/
def validatePayload (mem : Nat → Byte) (slot : SlotId) (header : BootImageHeader) :
    BootImageValidationResult × Option (Word × Word) :=
  match BootSlot.getDescriptor slot with
  | none => (.errSlotId, none)
  | some d =>
    if header.imageSize = 0 ∨ d.payloadEndAddress - d.vectorAddress < header.imageSize.toNat ∨
        header.vectorAddress.toNat ≠ d.vectorAddress ∨
        !BootSlot.containsRange slot header.vectorAddress.toNat 8 then (.errAddressRange, none)
    else
      let payloadEnd := (header.vectorAddress + header.imageSize).toNat
      if d.payloadEndAddress < payloadEnd then (.errAddressRange, none)
      else
        let msp := readWord mem header.vectorAddress.toNat
        let reset := readWord mem (header.vectorAddress.toNat + 4)
        let resetAddress := reset &&& ~~~1
        let result : BootImageValidationResult :=
          if !stackPointerValid msp then .errStackPointer
          else if reset = 0 ∨ reset = 0xFFFFFFFF ∨ reset &&& 1 = 0 ∨
              resetAddress.toNat < header.vectorAddress.toNat ∨
              payloadEnd ≤ resetAddress.toNat then .errResetHandler
          else if header.entryAddress ≠ reset then .errEntryMismatch
          else if BootCrc32.calculate (fun i => mem (header.vectorAddress.toNat + i))
              header.imageSize.toNat ≠ header.imageCrc32 then .errImageCrc
          else .valid
        (result, some (msp, reset))

/-- `BootImage_Validate`: validates the header in `info` against the payload of the slot. -/
def validate (mem : Nat → Byte) (slot : SlotId) (info : BootImageInfo) : BootImageInfo :=
  match validateHeader slot info.header with
  | .valid =>
    let (result, vectors) := validatePayload mem slot info.header
    { info with
      initialMsp := vectors.elim info.initialMsp (·.1)
      resetHandler := vectors.elim info.resetHandler (·.2)
      validationResult := result
      valid := result == .valid }
  | result => { info with validationResult := result, valid := result == .valid }

def loadInfo (mem : Nat → Byte) (slot : SlotId) : BootImageInfo :=
  match BootSlot.getDescriptor slot with
  | none => { clearInfo with validationResult := .errSlotId }
  | some d =>
    let header := readHeader mem d
    let info : BootImageInfo :=
      { clearInfo with
        slotId := slot
        slotBase := d.baseAddress
        slotSize := d.size
        headerAddress := d.headerAddress
        payloadAddress := d.vectorAddress
        vectorAddress := d.vectorAddress
        header := header }
    if slot = some .a ∧ headerIsErased header then loadLegacySlotA mem info
    else validate mem slot info

def isBootable (mem : Nat → Byte) (slot : SlotId) : Bool :=
  let result := (loadInfo mem slot).validationResult
  result == .valid || result == .validLegacy

end BootImage
