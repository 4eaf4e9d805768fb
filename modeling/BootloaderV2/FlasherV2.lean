import BootloaderV2.ImageFormat
import BootloaderV2.Reports
import BootloaderV2.UdsClient

/-!
# The flasher of the gateway

`flasher_v2.py` with what it takes from `flasher.py`, `packed_image.py` and `update_status.py`.  The
two loops that ask the clock when to give up take fuel; what is printed is left out.
-/

namespace Gateway

open RaiseM (raise lift exhausted tryCatch)

def securityXor : Nat := 0xA5C39E71
def securityRotate : Nat := 7

def calculateKey (seed : Nat) : Nat :=
  let value := (seed ^^^ securityXor) &&& 0xFFFFFFFF
  ((value <<< securityRotate) ||| (value >>> (32 - securityRotate))) &&& 0xFFFFFFFF

structure FlashOptions where
  wrongCrc : Bool
  wrongSequence : Bool
  skipSecurity : Bool
  address : Option Nat
  stopAtPercent : Option Nat

/-- The options of a plain update. -/
def FlashOptions.plain : FlashOptions := ⟨false, false, false, none, none⟩

/-- `transfer_chunks`; `length` is what a block carries. -/
def transferChunks (data : List Byte) (maxBlockLength : Nat) : Except Raised (List (List Byte)) :=
  if ¬ (3 ≤ maxBlockLength ∧ maxBlockLength ≤ 4095) then
    .error (.valueError "ECU advertised unusable maxNumberOfBlockLength")
  else
    let length := maxBlockLength - 2
    .ok ((List.range ((data.length + length - 1) / length)).map fun i =>
      (data.drop (i * length)).take length)

/-- `UpdateStatus.require_ready`. -/
def requireReady (status : UpdateStatus) : Except Raised Unit :=
  if status.fault then
    .error (.runtimeError "Journal storage error: stop; inspect ECU/reset before another update")
  else if !status.valid then
    .error (.runtimeError
      "Journal invalid: fail-safe. Explicit --initialize-journal A/B/none required")
  else .ok ()

/-- The trusted slot that `--initialize-journal` names. -/
inductive JournalChoice where
  | a | b | none
  deriving DecidableEq, Repr

def JournalChoice.selected : JournalChoice → Byte
  | .a => 0
  | .b => 1
  | .none => 255

/-- `PackedImage.address`; the slot is one of two. -/
def imageAddress (image : PackedImage) : Nat := PackedImage.slotBases.getD image.slot 0

namespace V2UdsFlasher

variable {σ : Type} (T : Transport σ)

def setState (state : FlashState) : TesterM σ Unit :=
  RaiseM.modify fun s => { s with state := state }

def readSlot (did : Nat) : TesterM σ Nat := do
  let data ← UdsClient.readDid T did
  if data.length ≠ 1 ∨ ¬ (data.getD 0 0 = 0 ∨ data.getD 0 0 = 1 ∨ data.getD 0 0 = 255) then
    raise (.runtimeError "Malformed slot DID")
  else return (data.getD 0 0).toNat

def readVersion : TesterM σ Nat := do
  let data ← UdsClient.readDid T 0xF102
  if data.length ≠ 4 then raise (.runtimeError "Malformed image version DID")
  else return fromBytes data

/-- The loop that waits for the programming session of the bootloader. -/
def sessionLoop (deadline : Rat) : Nat → TesterM σ Unit
  | 0 => exhausted
  | fuel + 1 =>
    tryCatch (do let _ ← UdsClient.diagnosticSession T 2) fun error =>
      if error.isRuntimeError then do
        let now ← UdsClient.monotonic T
        if deadline ≤ now then raise error
        else
          UdsClient.sleep T (1 / 5)
          sessionLoop deadline fuel
      else raise error

def securityAccess (o : FlashOptions) : TesterM σ Unit := do
  if !o.skipSecurity then
    let seed ← UdsClient.securitySeed T
    let _ ← UdsClient.securityKey T (calculateKey seed)

/-- A negative response of an ECU that does not know the identifier. -/
def Unavailable (requestSid nrc : Byte) : Prop := requestSid = 0x22 ∧ (nrc = 0x11 ∨ nrc = 0x31)

instance : Decidable (Unavailable requestSid nrc) :=
  inferInstanceAs (Decidable (_ ∧ (_ ∨ _)))

/-- The result of `m`, if the ECU has the identifier that it asks for. -/
def ifAvailable {α : Type} (m : TesterM σ α) : TesterM σ (Option α) :=
  tryCatch (do return some (← m)) fun error =>
    match error with
    | .negativeResponse requestSid nrc =>
      if Unavailable requestSid nrc then return none else raise error
    | _ => raise error

def parsed {α : Type} (x : Except String α) : Except Raised α := x.mapError .runtimeError

def readUpdateStatus : TesterM σ UpdateStatus := do
  let data ← UdsClient.readDid T 0xF104
  lift (parsed (UpdateStatus.parse data))

/-- F105 is only described. -/
def readBootStatus : TesterM σ BootStatus := do
  let data ← UdsClient.readDid T 0xF105
  lift (parsed (BootStatus.parse data))

/-- The commissioning of the journal, if it is asked for. -/
def commission (initializeJournal : Option JournalChoice) (status : Option UpdateStatus) :
    TesterM σ (Option UpdateStatus) :=
  match initializeJournal with
  | none => return status
  | some choice =>
    match status with
    | none => raise (.runtimeError "Journal initialization requires Stage4 Bootloader")
    | some status =>
      if status.valid then
        raise (.runtimeError "Journal already valid; remove --initialize-journal")
      else do
        let _ ← UdsClient.routineStart T 0xFF02 [choice.selected]
        return some (← readUpdateStatus T)

/-- An ECU with a journal has to be ready for an update. -/
def requireJournal (status : Option UpdateStatus) : TesterM σ Unit :=
  match status with
  | none => return ()
  | some status => lift (requireReady status)

def describeBoot (status : Option UpdateStatus) : TesterM σ Unit := do
  if status.isSome then
    let _ ← ifAvailable (readBootStatus T)

/-- What is asked of the journal before the slots. -/
def checkJournal (initializeJournal : Option JournalChoice) : TesterM σ Unit := do
  let status ← ifAvailable (readUpdateStatus T)
  describeBoot T status
  requireJournal (← commission T initializeJournal status)

/-- The target, once the image suits the slots and the versions of the ECU. -/
def selectTarget (o : FlashOptions) (image : PackedImage) : TesterM σ Nat := do
  let active ← readSlot T 0xF101
  let target ← readSlot T 0xF103
  let currentVersion ← readVersion T
  let expected := if active = 255 then 0 else 1 - active
  if target ≠ expected ∨ target ≠ image.slot then
    raise (.valueError "Image slot does not match ECU inactive slot; build/pack the other slot")
  else if active ≠ 255 ∧ image.version ≤ currentVersion then
    raise (.valueError "Target version must be higher than active version")
  else if o.address.isSome ∧ o.address ≠ some (imageAddress image) then
    raise (.valueError "--address conflicts with packed image")
  else return target

/-- The counter of a block. -/
def blockSequence (o : FlashOptions) (index : Nat) : Byte :=
  if o.wrongSequence ∧ index = 1 then BitVec.ofNat 8 (index + 1) + 1 else BitVec.ofNat 8 (index + 1)

/-- The bytes of a block. -/
def blockData (o : FlashOptions) (index : Nat) (chunk : List Byte) : List Byte :=
  if o.wrongCrc ∧ index = 0 then
    let i := min 8 (chunk.length - 1)
    chunk.set i (chunk.getD i 0 ^^^ 1)
  else chunk

/-- The loop over the blocks; the result tells whether all of them have been sent. -/
def transferLoop (o : FlashOptions) (total : Nat) (index sent : Nat) :
    List (List Byte) → TesterM σ Bool
  | [] => return true
  | chunk :: chunks => do
    let _ ← UdsClient.transferData T (blockSequence o index) (blockData o index chunk)
    let sent := sent + chunk.length
    let percent := sent * 100 / total
    if ∃ stop ∈ o.stopAtPercent, stop ≤ percent then
      setState .interrupted
      return false
    else transferLoop o total (index + 1) sent chunks

/-- Whether the ECU runs the new image. -/
def runsTarget (target version : Nat) : TesterM σ Bool := do
  if (← readSlot T 0xF101) = target then return decide ((← readVersion T) = version)
  else return false

/-- The loop that waits for the new image. -/
def confirmLoop (target version : Nat) (deadline : Rat) : Nat → TesterM σ Unit
  | 0 => exhausted
  | fuel + 1 => do
    UdsClient.sleep T (1 / 4)
    let runs ← tryCatch (runsTarget T target version) fun error =>
      if error.isRuntimeError then return false else raise error
    if runs then return ()
    else
      let now ← UdsClient.monotonic T
      if deadline ≤ now then
        raise (.runtimeError "Reset completed but target Slot/Version could not be confirmed")
      else confirmLoop target version deadline fuel

/-- From the session of the application to the target slot. -/
def prepare (o : FlashOptions) (initializeJournal : Option JournalChoice) (image : PackedImage)
    (fuel : Nat) : TesterM σ Nat := do
  setState .enterProgrammingSession
  let _ ← UdsClient.diagnosticSession T 2
  UdsClient.sleep T (2 / 5)
  let now ← UdsClient.monotonic T
  sessionLoop T (now + 5) fuel
  setState .securityAccess
  securityAccess T o
  setState .selectTarget
  checkJournal T initializeJournal
  selectTarget T o image

/-- The end of the transfer and the verification. -/
def finish : TesterM σ Bool := do
  setState .transferExit
  let _ ← UdsClient.requestTransferExit T
  setState .verify
  let _ ← UdsClient.routineStart T 0xFF01 []
  return true

/-- The blocks and what follows them; the result tells whether the image has been sent. -/
def send (o : FlashOptions) (total : Nat) (chunks : List (List Byte)) : TesterM σ Bool := do
  setState .transferData
  if ← transferLoop T o total 0 0 chunks then finish T else return false

/-- From the erasure to the verification. -/
def program (o : FlashOptions) (image : PackedImage) (firmware : List Byte) : TesterM σ Bool := do
  setState .erase
  let parameters := toBytes 4 (imageAddress image) ++ toBytes 4 firmware.length
  let _ ← UdsClient.routineStart T 0xFF00 parameters
  setState .requestDownload
  let maximum ← UdsClient.requestDownload T (imageAddress image) firmware.length
  let chunks ← lift (transferChunks firmware maximum)
  send T o firmware.length chunks

/-- From the reset to the new image. -/
def activate (image : PackedImage) (target fuel : Nat) : TesterM σ Unit := do
  setState .reset
  let _ ← UdsClient.ecuReset T
  let now ← UdsClient.monotonic T
  confirmLoop T target image.version (now + 8) fuel
  setState .done

/-- `_flash`. -/
def flashImage (o : FlashOptions) (initializeJournal : Option JournalChoice) (firmware : List Byte)
    (fuel : Nat) : TesterM σ Unit := do
  let image ← lift ((PackedImage.parse firmware).mapError .valueError)
  let target ← prepare T o initializeJournal image fuel
  if ← program T o image firmware then activate T image target fuel

/-- `flash`. -/
def flash (o : FlashOptions) (initializeJournal : Option JournalChoice) (firmware : List Byte)
    (fuel : Nat) : TesterM σ Unit :=
  tryCatch (flashImage T o initializeJournal firmware fuel) fun error => do
    setState .failed
    raise error

end V2UdsFlasher

end Gateway
