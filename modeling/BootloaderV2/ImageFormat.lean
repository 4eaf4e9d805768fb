import BootloaderV2.Coverage
import BootloaderV2.Lib.JsNumber

/-!
# Packed images on the host

`image_format.js` builds and checks the image of a slot, `packed_image.py` reads one.  Both have the
layout of the header and the addresses of the slots as numbers of their own.
-/

open Buffer

/-! ## The packer -/

namespace ImageFormat

def headerMagic : Nat := 0x42493256
def headerVersion : Nat := 1
def headerSize : Nat := 64
def headerCrcLength : Nat := 60
def sramStart : Nat := 0x1FFF8000
def sramEnd : Nat := 0x20006FF0

/-- An entry of `SLOTS`. -/
structure SlotEntry where
  id : Nat
  name : String
  baseAddress : Nat
  size : Nat
  vectorAddress : Nat
  headerAddress : Nat
  payloadEndAddress : Nat

def slots : Slot → SlotEntry
  | .a => ⟨0, "A", 0x00008000, 0x00038000, 0x00008000, 0x0003F000, 0x0003F000⟩
  | .b => ⟨1, "B", 0x00040000, 0x00038000, 0x00040000, 0x00077000, 0x00077000⟩

/-- What a function throws: an `Error` with its message, or the `RangeError` of a buffer. -/
inductive Thrown where
  | error (message : String)
  | rangeError
  deriving DecidableEq, Repr

/-- One bit of the inner loop of `crc32`. -/
def crcBit (crc : Int) : Int :=
  if JsNumber.and crc 1 ≠ 0 then JsNumber.ushr (JsNumber.xor (JsNumber.ushr crc 1) 0xEDB88320) 0
  else JsNumber.ushr (JsNumber.ushr crc 1) 0

/-- One byte of the outer loop. -/
def crcByte (crc : Int) (byte : Byte) : Int :=
  Nat.repeat crcBit 8 (JsNumber.ushr (JsNumber.xor crc byte.toNat) 0)

def crc32 (data : List Byte) : Nat :=
  JsNumber.ushr (JsNumber.xor (data.foldl crcByte 0xFFFFFFFF) 0xFFFFFFFF) 0

/-- A slot is given by its name or by its entry. -/
inductive SlotValue where
  | name (text : String)
  | entry (s : Slot)

def slotFor (value : String) : Except Thrown Slot :=
  if value.toUpper = "A" then .ok .a
  else if value.toUpper = "B" then .ok .b
  else .error (.error "slot must be A or B")

def SlotValue.resolve : SlotValue → Except Thrown Slot
  | name text => slotFor text
  | entry s => .ok s

def containsRange (slot : SlotEntry) (address length : Nat) : Bool :=
  if length = 0 then false
  else
    let stop := slot.baseAddress + slot.size
    decide (slot.baseAddress ≤ address) && decide (address < stop) && decide (length ≤ stop - address)

/-- `value.toString(16).padStart(8, '0')`. -/
def hex8 (value : Nat) : String :=
  let digits := Nat.toDigits 16 value
  String.ofList (List.replicate (8 - digits.length) '0' ++ digits)

def readUInt32 (b : List Byte) (offset : Nat) : Except Thrown Nat :=
  match readUInt32LE b offset with
  | some value => .ok value
  | none => .error .rangeError

def writeUInt32 (b : List Byte) (value offset : Nat) : Except Thrown (List Byte) :=
  match writeUInt32LE b value offset with
  | some b' => .ok b'
  | none => .error .rangeError

/-- `fields.forEach(...)` from the field with number `index`. -/
def writeFields (header : List Byte) (index : Nat) : List Nat → Except Thrown (List Byte)
  | [] => .ok header
  | value :: fields => do
    let header ← writeUInt32 header (JsNumber.ushr value 0) (index * 4)
    writeFields header (index + 1) fields

structure Built where
  header : List Byte
  imageSize : Nat
  imageCrc : Nat
  initialMsp : Nat
  entryAddress : Nat

/-- The argument of `packImage`, with the numbers as they are given. -/
structure PackArgs where
  payload : List Byte
  slot : SlotValue
  softwareVersion : Int
  buildId : Option Int
  flags : Option Int

def buildHeader (args : PackArgs) (slot : SlotEntry) : Except Thrown Built := do
  let imageSize := args.payload.length
  let imageCrc := crc32 args.payload
  let initialMsp ← readUInt32 args.payload 0
  let entryAddress ← readUInt32 args.payload 4
  let header := List.replicate headerSize 0
  let fields := [headerMagic, headerVersion, imageSize, imageCrc,
    JsNumber.ushr args.softwareVersion 0, JsNumber.ushr (args.buildId.getD imageCrc) 0,
    slot.vectorAddress, entryAddress, JsNumber.ushr (args.flags.getD 0) 0]
  let header ← writeFields header 0 fields
  let header ← writeUInt32 header (crc32 (subarray header 0 headerCrcLength)) 60
  return ⟨header, imageSize, imageCrc, initialMsp, entryAddress⟩

/-- `(reset & 0xFFFFFFFE) >>> 0`. -/
def resetAddress (reset : Nat) : Nat := JsNumber.ushr (JsNumber.and reset 0xFFFFFFFE) 0

def validatePayloadForSlot (payload : List Byte) (slot : SlotEntry) : Except Thrown Unit := do
  let maximum := slot.payloadEndAddress - slot.vectorAddress
  if payload.length < 8 ∨ maximum < payload.length then
    throw (.error s!"payload size must be 8..{maximum} bytes for Slot {slot.name}")
  let msp ← readUInt32 payload 0
  let reset ← readUInt32 payload 4
  if msp < sramStart ∨ sramEnd < msp ∨ JsNumber.and msp 7 ≠ 0 then
    throw (.error s!"invalid initial MSP 0x{hex8 msp}")
  if JsNumber.and reset 1 = 0 ∨ resetAddress reset < slot.vectorAddress ∨
      slot.vectorAddress + payload.length ≤ resetAddress reset then
    throw (.error s!"invalid Reset Handler 0x{hex8 reset}")

structure Packed extends Built where
  image : List Byte
  slot : Slot

def packImage (args : PackArgs) : Except Thrown Packed := do
  let s ← args.slot.resolve
  let slot := slots s
  validatePayloadForSlot args.payload slot
  let built ← buildHeader args slot
  let image := List.replicate slot.size 0xFF
  let image := copy args.payload image (slot.vectorAddress - slot.baseAddress)
  let image := copy built.header image (slot.headerAddress - slot.baseAddress)
  return { built with image := image, slot := s }

structure Header where
  raw : List Byte
  magic : Nat
  headerVersion : Nat
  imageSize : Nat
  imageCrc32 : Nat
  softwareVersion : Nat
  buildId : Nat
  vectorAddress : Nat
  entryAddress : Nat
  flags : Nat
  headerCrc32 : Nat

/-- `readHeader` with the slot found; the sixteen words lie in the header. -/
def readHeader (image : List Byte) (slot : SlotEntry) : Except Thrown Header :=
  let offset := slot.headerAddress - slot.baseAddress
  if image.length ≠ slot.size then .error (.error s!"image must be exactly {slot.size} bytes")
  else
    let header := subarray image offset (offset + headerSize)
    let values (k : Nat) : Nat := (wordLE header (4 * k)).toNat
    .ok ⟨header, values 0, values 1, values 2, values 3, values 4, values 5, values 6, values 7,
      values 8, values 15⟩

inductive Verdict where
  | errSize | errMagic | errHeaderVersion | errHeaderCrc | errVector | errStackPointer
  | errResetHandler | errEntryMismatch | errImageCrc | valid
  deriving DecidableEq, Repr

def validatePackedImage (image : List Byte) (slotValue : SlotValue) : Except Thrown Verdict := do
  let slot := slots (← slotValue.resolve)
  match readHeader image slot with
  | .error _ => return .errSize
  | .ok header =>
    if header.magic ≠ headerMagic then return .errMagic
    if header.headerVersion ≠ headerVersion then return .errHeaderVersion
    if header.imageSize = 0 ∨ slot.payloadEndAddress - slot.vectorAddress < header.imageSize then
      return .errSize
    if crc32 (subarray header.raw 0 headerCrcLength) ≠ header.headerCrc32 then return .errHeaderCrc
    if header.vectorAddress ≠ slot.vectorAddress ∨ !containsRange slot header.vectorAddress 8 then
      return .errVector
    let payload := subarray image 0 header.imageSize
    -- a payload of less than two words throws here
    let msp ← readUInt32 payload 0
    let reset ← readUInt32 payload 4
    if msp < sramStart ∨ sramEnd < msp ∨ JsNumber.and msp 7 ≠ 0 then return .errStackPointer
    if JsNumber.and reset 1 = 0 ∨ resetAddress reset < slot.vectorAddress ∨
        slot.vectorAddress + header.imageSize ≤ resetAddress reset then return .errResetHandler
    if header.entryAddress ≠ reset then return .errEntryMismatch
    if crc32 payload ≠ header.imageCrc32 then return .errImageCrc
    return .valid

end ImageFormat

/-! ## The reader of the gateway -/

/-- `binascii.crc32`. -/
def Binascii.crc32 (data : List Byte) : Nat := (BootCrc32.calculate (byteAt data) data.length).toNat

structure PackedImage where
  data : List Byte
  slot : Nat
  version : Nat
  imageSize : Nat
  imageCrc : Nat
  buildId : Nat

namespace PackedImage

def slotSize : Nat := 0x38000
def headerOffset : Nat := 0x37000
def slotBases : List Nat := [0x8000, 0x40000]

def parse (data : List Byte) : Except String PackedImage :=
  if data.length ≠ slotSize then
    .error "Expected full Stage2 packed slot image (229376 bytes), not raw APP.bin"
  else
    let header := subarray data headerOffset (headerOffset + 64)
    let fields (k : Nat) : Nat := (wordLE header (4 * k)).toNat
    let magic := fields 0
    let fmt := fields 1
    let size := fields 2
    let crc := fields 3
    let version := fields 4
    let buildId := fields 5
    let vector := fields 6
    let entry := fields 7
    let msp := (wordLE data 0).toNat
    let reset := (wordLE data 4).toNat
    -- `reset & ~1`
    let address := reset / 2 * 2
    if magic ≠ 0x42493256 ∨ fmt ≠ 1 then .error "Bad image magic/header version"
    else if Binascii.crc32 (header.take 60) &&& 0xFFFFFFFF ≠ fields 15 then .error "Bad Header CRC"
    else if ¬ (8 ≤ size ∧ size ≤ headerOffset) then .error "Payload size outside slot"
    else if ¬ slotBases.contains vector then .error "Bad vector address"
    else if ¬ (0x1FFF8000 ≤ msp ∧ msp ≤ 0x20006FF0) ∨ msp % 8 ≠ 0 then .error "Bad initial MSP"
    else if reset &&& 1 = 0 ∨ ¬ (vector ≤ address ∧ address < vector + size) ∨ entry ≠ reset then
      .error "Bad Reset Handler/entry"
    else if Binascii.crc32 (data.take size) &&& 0xFFFFFFFF ≠ crc then .error "Bad Payload CRC"
    else if (data.drop (headerOffset + 64)).any (· ≠ 255) then
      .error "Non-erased reserved header tail"
    else .ok ⟨data, slotBases.idxOf vector, version, size, crc, buildId⟩

end PackedImage
