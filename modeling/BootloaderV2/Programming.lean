import BootloaderV2.Lifecycle

/-!
# The programming server

`boot_programming.c`: erase, download, transfer, exit and verify of the inactive slot.  Negative
response codes are bytes, and zero is success.  `pending` tells the tester to wait; it fails when
the response cannot be transmitted.
-/

open BootConfig CrashM

namespace BootIsoTp

def maxPduLength : Nat := 256

/-- `BootIsoTp_Transmit`, as the environment lets it end. -/
def transmit : BootM Bool := fun b =>
  .done (b.hw.transmits.headD true)
    { b with hw := { b.hw with transmits := b.hw.transmits.tail } }

end BootIsoTp

namespace BootProgramming

def downloadMaxBlockLength : Nat := 130

/-- `BootProgramming_Abort` on the context. -/
def aborted (c : Context) : Context :=
  { c with
    downloadActive := false
    eraseComplete := false
    transferComplete := false
    imageVerified := false
    receivedSize := 0
    programmedSize := 0
    bufferedSize := 0
    expectedBlockSequenceCounter := 1 }

def abort : BootM Unit := BootM.setProgramming aborted

/-- The context of `BootProgramming_Init`; the transfer buffer is left alone. -/
def initial (c : Context) (active : SlotId) (version : Word) : Context :=
  aborted {
    sessionActive := false
    securityUnlocked := false
    downloadActive := false
    eraseComplete := false
    transferComplete := false
    imageVerified := false
    activeSlot := active
    targetSlot := if active = none then some .a else BootSlot.getOtherSlot active
    activeVersion := version
    targetAddress := 0
    targetSize := 0
    receivedSize := 0
    programmedSize := 0
    expectedBlockSequenceCounter := 0
    maxBlockLength := downloadMaxBlockLength
    bufferedSize := 0
    validationResult := .errEmpty
    stagedHeader := .zero
    transferBuffer := c.transferBuffer }

def init (active : SlotId) (version : Word) : BootM Unit :=
  BootM.setProgramming fun c => initial c active version

def setAccess (session unlocked : Bool) : BootM Unit :=
  BootM.setProgramming fun c => { c with sessionActive := session, securityUnlocked := unlocked }

def accessCheck (ram : Ram) : Byte :=
  if !ram.programming.sessionActive then 0x22
  else if !ram.programming.securityUnlocked then 0x33
  else if !BootUpdate.canContinue ram.update then 0x72
  else 0

def exactTarget (c : Context) (address size : Nat) : Bool :=
  c.targetSlot.isSome && c.targetSlot != c.activeSlot &&
    address == BootSlot.getBaseAddress c.targetSlot && size == BootSlot.getSize c.targetSlot &&
    BootSlot.containsRange c.targetSlot address size

/-- The loop of `BootProgramming_Erase` over `n` sectors from `current` on. -/
def eraseLoop (header : Nat) : Nat → Nat → BootM Byte
  | _, 0 => return 0
  | current, n + 1 => do
    if current = header then eraseLoop header (current + flashSectorSize) n
    else
      if !(← BootIsoTp.transmit) then return 0x72
      if !(← BootFlash.erase current flashSectorSize) then
        let _ ← BootUpdate.abort .eraseFailed
        return 0x72
      eraseLoop header (current + flashSectorSize) n

/-- `BootProgramming_Erase` from `BootUpdate_Begin` on. -/
def eraseTarget (active target : SlotId) (address size : Nat) : BootM Byte := do
  let header := BootSlot.getHeaderAddress target
  if !(← BootUpdate.beginUpdate active target size) then return 0x72
  if !(← BootUpdate.setState .erasing) then return 0x72
  if !(← BootFlash.erase header flashSectorSize) then
    let _ ← BootUpdate.abort .eraseFailed
    return 0x72
  if !(← BootFlash.program header (fun _ => 0) flashPhraseSize) then
    let _ ← BootUpdate.abort .eraseFailed
    return 0x72
  let result ← eraseLoop header address (size / flashSectorSize)
  if result ≠ 0 then return result
  if !(← BootUpdate.setState .downloadReady) then return 0x72
  BootM.setProgramming fun c =>
    { c with targetAddress := address, targetSize := size, eraseComplete := true }
  return 0

def erase (address size : Nat) : BootM Byte := do
  let ram ← BootM.getRam
  let c := ram.programming
  let result := accessCheck ram
  if result ≠ 0 then return result
  if c.downloadActive then return 0x24
  if !exactTarget c address size then return 0x31
  if !BootLifecycle.canStartUpdate ram.lifecycle c.activeSlot c.targetSlot then return 0x22
  abort
  if !(← BootFlash.configureSlots c.activeSlot c.targetSlot) then return 0x72
  if !(← BootIsoTp.transmit) then return 0x72
  eraseTarget c.activeSlot c.targetSlot address size

/-- A header whose bytes are all `0xFF`. -/
def erasedHeader : BootImageHeader := .ofWords fun _ => 0xFFFFFFFF

def download (address size : Nat) : BootM Byte := do
  let ram ← BootM.getRam
  let c := ram.programming
  let result := accessCheck ram
  if result ≠ 0 then return result
  if !exactTarget c address size then return 0x31
  if !c.eraseComplete || c.downloadActive || c.transferComplete || c.receivedSize != 0 ||
      address != c.targetAddress || size != c.targetSize then return 0x24
  if !(← BootUpdate.setState .programming) then return 0x72
  BootM.setProgramming fun c =>
    { c with
      downloadActive := true
      imageVerified := false
      validationResult := .errEmpty
      stagedHeader := erasedHeader }
  return 0

/-- The staged header with one phrase of it replaced. -/
def stagedWith (h : BootImageHeader) (offset : Nat) (phrase : Nat → Byte) : BootImageHeader :=
  .ofBytes fun i =>
    if offset ≤ i ∧ i < offset + flashPhraseSize then phrase (i - offset) else h.bytes i

/-- The end of `flush_phrase`. -/
def phraseFlushed (c : Context) : Context :=
  { c with programmedSize := c.programmedSize + flashPhraseSize, bufferedSize := 0 }

/-- `flush_phrase`: header phrases are staged in RAM, the rest of the header sector stays erased, and
    all other phrases are programmed. -/
def flushPhrase : BootM Bool := do
  let ram ← BootM.getRam
  let c := ram.programming
  let address := c.targetAddress + c.programmedSize
  let header := BootSlot.getHeaderAddress c.targetSlot
  if !BootSlot.containsRange c.targetSlot address flashPhraseSize ||
      c.targetSlot == c.activeSlot then return false
  if header ≤ address ∧ address < header + BootImageHeader.size then
    BootM.setProgramming fun c => phraseFlushed
      { c with stagedHeader := stagedWith c.stagedHeader (address - header) c.transferBuffer }
    return true
  else
    if header + BootImageHeader.size ≤ address ∧ !TwoCopy.blank c.transferBuffer flashPhraseSize then
      return false
    if !(← BootFlash.program address c.transferBuffer flashPhraseSize) then return false
    BootM.setProgramming phraseFlushed
    return true

/-- The bytes of a block, each of which fills the buffer and may flush it. -/
def transferLoop : List Byte → BootM Bool
  | [] => return true
  | byte :: bytes => do
    BootM.setProgramming fun c =>
      { c with
        transferBuffer := Function.update c.transferBuffer c.bufferedSize byte
        bufferedSize := c.bufferedSize + 1 }
    let ram ← BootM.getRam
    if ram.programming.bufferedSize = flashPhraseSize then
      if !(← flushPhrase) then return false
      transferLoop bytes
    else transferLoop bytes

def transfer (sequence : Byte) (data : List Byte) : BootM Byte := do
  let ram ← BootM.getRam
  let c := ram.programming
  let result := accessCheck ram
  if result ≠ 0 then return result
  if !c.downloadActive then return 0x24
  if sequence ≠ c.expectedBlockSequenceCounter then return 0x73
  if data.length = 0 ∨ c.maxBlockLength - 2 < data.length then return 0x13
  if c.targetSize < c.receivedSize ∨ c.targetSize - c.receivedSize < data.length then return 0x31
  if !(← transferLoop data) then
    let _ ← BootUpdate.abort .programFailed
    abort
    return 0x72
  BootM.setProgramming fun c => { c with receivedSize := c.receivedSize + data.length }
  let ram ← BootM.getRam
  if !(← BootUpdate.setProgress ram.programming.programmedSize sequence) then
    abort
    return 0x72
  BootM.setProgramming fun c =>
    { c with expectedBlockSequenceCounter := c.expectedBlockSequenceCounter + 1 }
  return 0

def exit : BootM Byte := do
  let ram ← BootM.getRam
  let c := ram.programming
  let result := accessCheck ram
  if result ≠ 0 then return result
  if !c.downloadActive || c.receivedSize != c.targetSize || c.bufferedSize != 0 ||
      c.programmedSize != c.targetSize then return 0x24
  if !(← BootUpdate.markTransferComplete c.stagedHeader (c.expectedBlockSequenceCounter - 1)) then
    return 0x72
  BootM.setProgramming fun c => { c with downloadActive := false, transferComplete := true }
  return 0

/-- The end of `BootProgramming_Verify`, once the header is in flash. -/
def verifyPublished (c : Context) : BootM Byte := do
  let mem ← BootM.flash
  let result := (BootImage.loadInfo mem c.targetSlot).validationResult
  BootM.setProgramming fun c =>
    { c with validationResult := result, imageVerified := result == .valid }
  if result ≠ .valid then
    let _ ← BootUpdate.abort .verifyFailed
    return 0x72
  if ← BootUpdate.markVerified false then return 0
  BootM.setProgramming fun c => { c with imageVerified := false }
  return 0x72

/-- `BootProgramming_Verify` from the erasure of the header sector on. -/
def verifyPublish (c : Context) : BootM Byte := do
  let header := BootSlot.getHeaderAddress c.targetSlot
  if !(← BootFlash.erase header flashSectorSize) then
    let _ ← BootUpdate.abort .programFailed
    abort
    return 0x72
  if !(← BootFlash.program header c.stagedHeader.bytes BootImageHeader.size) then
    let _ ← BootUpdate.abort .programFailed
    abort
    return 0x72
  if !(← BootIsoTp.transmit) then return 0x72
  verifyPublished c

def verify : BootM Byte := do
  let ram ← BootM.getRam
  let c := ram.programming
  let result := accessCheck ram
  if result ≠ 0 then return result
  if !c.eraseComplete || !c.transferComplete || c.downloadActive || c.imageVerified then
    return 0x24
  if !(← BootIsoTp.transmit) then return 0x72
  if !(← BootUpdate.setState .verifying) then return 0x72
  let mem ← BootM.flash
  let result := (BootImage.validate mem c.targetSlot
    { BootImage.zeroInfo with header := c.stagedHeader }).validationResult
  BootM.setProgramming fun c => { c with validationResult := result }
  if result ≠ .valid then
    let _ ← BootUpdate.abort .badImage
    return 0x72
  if c.activeSlot.isSome ∧
      BootVersion.compare c.stagedHeader.softwareVersion c.activeVersion ≠ .greater then
    let _ ← BootUpdate.abort .badImage
    return 0x31
  if !(← BootIsoTp.transmit) then return 0x72
  verifyPublish c

def canReset (ram : Ram) : Bool :=
  BootUpdate.canContinue ram.update &&
    ram.update.current.state == BootUpdateState.pendingActivation.code &&
    ram.programming.eraseComplete && ram.programming.transferComplete &&
    ram.programming.imageVerified && !ram.programming.downloadActive

end BootProgramming
