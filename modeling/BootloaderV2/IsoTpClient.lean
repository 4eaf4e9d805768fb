import BootloaderV2.Config
import BootloaderV2.Lib.Raising
import Mathlib.Algebra.Order.Ring.Rat
import Mathlib.Tactic.Linarith

/-!
# The ISO-TP client of the gateway

`isotp.py` and the frames of `can_bus.py`.  The world the client runs in is what `time.monotonic()`
and the bus return, call after call; the bus sends what it is given.  The loops take fuel.
-/

namespace Gateway

/-! ## `can_bus.py` -/

def canSffMask : Nat := 0x7FF

/-- What the client raises: its own errors, and those of Python. -/
inductive PyError where
  | isoTpError (message : String)
  | isoTpTimeoutError (message : String)
  | isoTpSequenceError (message : String)
  | indexError
  | valueError (message : String)
  deriving DecidableEq, Repr

/-- An `IsoTpError`, or of one of its subclasses. -/
def PyError.IsIsoTp : PyError → Prop
  | .isoTpError _ | .isoTpTimeoutError _ | .isoTpSequenceError _ => True
  | .indexError | .valueError _ => False

structure CanFrame where
  canId : Nat
  data : List Byte
  standard : canId ≤ canSffMask
  classic : data.length ≤ 8

/-- `CanFrame(can_id, data)`. -/
def CanFrame.make (canId : Nat) (data : List Byte) : Except PyError CanFrame :=
  if hid : canSffMask < canId then
    .error (.valueError "Only 11-bit standard CAN identifiers are supported")
  else if hdata : 8 < data.length then
    .error (.valueError "Classic CAN payload cannot exceed 8 bytes")
  else .ok ⟨canId, data, Nat.le_of_not_lt hid, Nat.le_of_not_lt hdata⟩

/-! ## The world -/

structure World where
  clock : Nat → Rat
  received : Nat → Option CanFrame

inductive Action where
  | sleep (seconds : Rat)
  | send (frame : CanFrame)
  | receive (timeout : Rat)

/-- How often the clock and the bus have been asked, and what has been done. -/
structure Io where
  clockReads : Nat
  receives : Nat
  log : List Action

abbrev Py : Type → Type := RaiseM Io PyError

/-- `time.monotonic()`. -/
def monotonic (w : World) : Py Rat := fun s =>
  some (.ok (w.clock s.clockReads), { s with clockReads := s.clockReads + 1 })

/-- `CanTransport.receive`; `none` is a time-out. -/
def receive (w : World) (timeout : Rat) : Py (Option CanFrame) := fun s =>
  some (.ok (w.received s.receives),
    { s with receives := s.receives + 1, log := s.log ++ [.receive timeout] })

def send (frame : CanFrame) : Py Unit :=
  RaiseM.modify fun s => { s with log := s.log ++ [.send frame] }

def sleep (seconds : Rat) : Py Unit :=
  RaiseM.modify fun s => { s with log := s.log ++ [.sleep seconds] }

/-- `data[i]`. -/
def index (data : List Byte) (i : Nat) : Except PyError Byte :=
  match data[i]? with
  | some byte => .ok byte
  | none => .error .indexError

/-- `data.ljust(8, b"\x00")`. -/
def ljust (data : List Byte) : List Byte := data ++ List.replicate (8 - data.length) 0

/-- An integer in upper-case hexadecimal digits, at least `width` of them. -/
def hex (width n : Nat) : String :=
  let digits := (Nat.toDigits 16 n).map Char.toUpper
  String.ofList (List.replicate (width - digits.length) '0' ++ digits)

/-! ## `isotp.py` -/

def pciTypeSingleFrame : Byte := 0x0
def pciTypeFirstFrame : Byte := 0x1
def pciTypeConsecutiveFrame : Byte := 0x2
def pciTypeFlowControl : Byte := 0x3
def flowStatusContinueToSend : Byte := 0x0

/-- An `IsoTpClient`; its constructor refuses other timeouts, and every caller passes the identifier
    0x7E0. -/
structure IsoTpClient where
  requestId : Nat
  responseId : Nat
  responseTimeout : Rat
  consecutiveFrameTimeout : Rat
  request_standard : requestId ≤ canSffMask
  response_pos : 0 < responseTimeout
  consecutive_pos : 0 < consecutiveFrameTimeout

namespace IsoTpClient

open RaiseM (raise lift exhausted)

def decodeStmin (value : Byte) : Except PyError Rat :=
  if value ≤ 0x7F then .ok (value.toNat / 1000)
  else if 0xF1 ≤ value ∧ value ≤ 0xF9 then .ok ((value.toNat - 0xF0) / 10000)
  else .error (.isoTpError ("Reserved STmin value: 0x" ++ hex 2 value.toNat))

def decodeSingleFrame (data : List Byte) : Except PyError (List Byte) := do
  let payloadLength := (← index data 0) &&& 0x0F
  if payloadLength = 0 ∨ 7 < payloadLength then
    .error (.isoTpError ("Invalid Single Frame length: " ++ toString payloadLength.toNat))
  else if data.length < payloadLength.toNat + 1 then
    .error (.isoTpError "Single Frame payload is shorter than its PCI length")
  else .ok ((data.drop 1).take payloadLength.toNat)

/-- The block size and the separation time of a flow control, read where it is accepted. -/
def flowParameters (data : List Byte) : Except PyError (Byte × Rat) := do
  let blockSize ← index data 1
  let stmin ← decodeStmin (← index data 2)
  return (blockSize, stmin)

/-- What `_send_multi_frame` does with the flow control after the first frame. -/
def firstFlowControl (data : List Byte) : Except PyError (Byte × Rat) :=
  match data with
  | [] => .error (.isoTpError "Expected Flow Control after First Frame")
  | pci :: _ =>
    if pci >>> 4 ≠ pciTypeFlowControl then
      .error (.isoTpError "Expected Flow Control after First Frame")
    else if pci &&& 0x0F ≠ flowStatusContinueToSend then
      .error (.isoTpError ("Flow Control rejected transfer: FS=" ++ toString (pci &&& 0x0F).toNat))
    else flowParameters data

/-- And with the flow control after each block. -/
def repeatedFlowControl (data : List Byte) : Except PyError (Byte × Rat) :=
  match data with
  | [] => .error (.isoTpError "Invalid repeated Flow Control")
  | pci :: _ =>
    if pci >>> 4 ≠ pciTypeFlowControl ∨ pci &&& 0x0F ≠ flowStatusContinueToSend then
      .error (.isoTpError "Invalid repeated Flow Control")
    else flowParameters data

variable (w : World) (c : IsoTpClient)

def timedOut : PyError :=
  .isoTpTimeoutError ("Timed out waiting for CAN ID 0x" ++ hex 3 c.responseId)

/-- The loop of `_receive_response`. -/
def receiveLoop (deadline : Rat) : Nat → Py CanFrame
  | 0 => exhausted
  | fuel + 1 => do
    let now ← monotonic w
    let remaining := deadline - now
    if remaining ≤ 0 then raise c.timedOut
    else
      match ← receive w remaining with
      | none =>
        let now ← monotonic w
        if deadline ≤ now then raise c.timedOut else receiveLoop deadline fuel
      | some frame =>
        if frame.canId = c.responseId then return frame else receiveLoop deadline fuel

/-- `_receive_response`. -/
def receiveResponseFrame (timeout : Rat) (fuel : Nat) : Py CanFrame := do
  let now ← monotonic w
  receiveLoop w c (now + timeout) fuel

def sendSingleFrame (payload : List Byte) : Py Unit := do
  let frame := BitVec.ofNat 8 payload.length :: payload
  send (← lift (CanFrame.make c.requestId (ljust frame)))

def sendFlowControl : Py Unit := do
  let flowControl : List Byte :=
    ljust [(pciTypeFlowControl <<< 4) ||| flowStatusContinueToSend, 0x00, 0x00]
  send (← lift (CanFrame.make c.requestId flowControl))

/-- The loop of `_send_multi_frame`. -/
def sendLoop (payload : List Byte) (offset : Nat) (sequence : Byte) (blockCount : Nat)
    (blockSize : Byte) (stmin : Rat) : Nat → Py Unit
  | 0 => exhausted
  | fuel + 1 =>
    if offset < payload.length then do
      let chunk := (payload.drop offset).take 7
      let frame := (0x20 ||| sequence) :: chunk
      if stmin ≠ 0 then sleep stmin
      send (← lift (CanFrame.make c.requestId (ljust frame)))
      let offset := offset + chunk.length
      let sequence := (sequence + 1) &&& 0x0F
      let blockCount := blockCount + 1
      if blockSize ≠ 0 ∧ blockSize.toNat ≤ blockCount ∧ offset < payload.length then
        let flowControl ← receiveResponseFrame w c c.responseTimeout fuel
        let parameters ← lift (repeatedFlowControl flowControl.data)
        sendLoop payload offset sequence 0 parameters.1 parameters.2 fuel
      else sendLoop payload offset sequence blockCount blockSize stmin fuel
    else return ()

def sendMultiFrame (payload : List Byte) (fuel : Nat) : Py Unit := do
  let first := [BitVec.ofNat 8 (0x10 ||| ((payload.length >>> 8) &&& 0x0F)),
    BitVec.ofNat 8 (payload.length &&& 0xFF)] ++ payload.take 6
  send (← lift (CanFrame.make c.requestId first))
  let flowControl ← receiveResponseFrame w c c.responseTimeout fuel
  let parameters ← lift (firstFlowControl flowControl.data)
  sendLoop w c payload 6 1 0 parameters.1 parameters.2 fuel

/-- What `_receive_multi_frame` checks of a consecutive frame; its payload. -/
def consecutivePayload (expected : Byte) (data : List Byte) : Except PyError (List Byte) :=
  match data with
  | [] => .error (.isoTpError "Received an empty Consecutive Frame")
  | pci :: payload =>
    if pci >>> 4 ≠ pciTypeConsecutiveFrame then
      .error (.isoTpError
        ("Expected Consecutive Frame, received PCI type 0x" ++ hex 1 (pci >>> 4).toNat))
    else if pci &&& 0x0F ≠ expected then
      .error (.isoTpSequenceError ("Expected CF sequence " ++ hex 1 expected.toNat ++ ", received " ++
        hex 1 (pci &&& 0x0F).toNat))
    else if data.length < 2 then .error (.isoTpError "Consecutive Frame contains no payload")
    else .ok payload

/-- The loop of `_receive_multi_frame`. -/
def assembleLoop (totalLength : Nat) (assembled : List Byte) (expected : Byte) :
    Nat → Py (List Byte)
  | 0 => exhausted
  | fuel + 1 =>
    if assembled.length < totalLength then do
      let frame ← receiveResponseFrame w c c.consecutiveFrameTimeout fuel
      let payload ← lift (consecutivePayload expected frame.data)
      assembleLoop totalLength (assembled ++ payload) ((expected + 1) &&& 0x0F) fuel
    else return assembled.take totalLength

/-- The length a first frame announces, checked. -/
def firstFrameLength (data : List Byte) : Except PyError Nat := do
  if data.length < 8 then
    .error (.isoTpError "First Frame must contain a complete 8-byte CAN payload")
  else
    let totalLength := (((← index data 0) &&& 0x0F).toNat <<< 8) ||| (← index data 1).toNat
    if totalLength ≤ 7 then
      .error (.isoTpError ("Invalid First Frame PDU length: " ++ toString totalLength))
    else .ok totalLength

def receiveMultiFrame (data : List Byte) (fuel : Nat) : Py (List Byte) := do
  let totalLength ← lift (firstFrameLength data)
  let assembled := (data.drop 2).take 6
  sendFlowControl c
  assembleLoop w c totalLength assembled 1 fuel

def decodeResponse (frame : CanFrame) (fuel : Nat) : Py (List Byte) :=
  match frame.data with
  | [] => raise (.isoTpError "Received an empty diagnostic CAN frame")
  | pci :: _ =>
    if pci >>> 4 = pciTypeSingleFrame then lift (decodeSingleFrame frame.data)
    else if pci >>> 4 = pciTypeFirstFrame then receiveMultiFrame w c frame.data fuel
    else raise (.isoTpError ("Unexpected first response PCI type: 0x" ++ hex 1 (pci >>> 4).toNat))

def request (payload : List Byte) (fuel : Nat) : Py (List Byte) := do
  if ¬ (1 ≤ payload.length ∧ payload.length ≤ 0xFFF) then
    raise (.valueError "ISO-TP payload length must be in range 1..4095")
  if payload.length ≤ 7 then sendSingleFrame c payload
  else sendMultiFrame w c payload fuel
  let firstResponse ← receiveResponseFrame w c c.responseTimeout fuel
  decodeResponse w c firstResponse fuel

/-- The final response after 0x78, without sending the request again. -/
def receiveResponse (timeout : Rat) (fuel : Nat) : Py (List Byte) := do
  let frame ← receiveResponseFrame w c timeout fuel
  decodeResponse w c frame fuel

end IsoTpClient

end Gateway
