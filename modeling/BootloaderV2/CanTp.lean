import BootloaderV2.Lib.Words
import Mathlib.Data.Fintype.Pi

/-!
# The transport layer of the application

`CanTp.c` with the routes of `PduR.c`: both directions of ISO-TP.  The tick at which something
happened is of an arbitrary type; the code has it as a word, a specification may remember more.

Every handler runs inside the critical section.  `accept` is what `xQueueSend` says about the transmit
queue at that moment; a handler returns the frames that the queue took.
-/

namespace CanIf

/-- `CanFrame_t`. -/
structure CanFrame where
  id : Word
  dlc : Byte
  data : Fin 8 → Byte
  deriving DecidableEq

namespace CanFrame

/-- A data byte; no handler reads further than the eight. -/
def byte (frame : CanFrame) (index : Nat) : Byte :=
  if h : index < 8 then frame.data ⟨index, h⟩ else 0

def set (frame : CanFrame) (index : Fin 8) (value : Byte) : CanFrame :=
  { frame with data := fun j => if j = index then value else frame.data j }

/-- The copying loops: `count` bytes to `start` and what follows. -/
def copy (frame : CanFrame) (start count : Nat) (source : Nat → Byte) : CanFrame :=
  { frame with data := fun j =>
      if start ≤ j.val ∧ j.val < start + count then source (j.val - start) else frame.data j }

end CanFrame

end CanIf

namespace CanTp

open CanIf (CanFrame)

def udsRequestId : Word := 0x7E0
def udsResponseId : Word := 0x7E8
def diagMaxPduLength : Nat := 256
def diagQueueLength : Nat := 2
def nBsTimeoutMs : Nat := 1000
def nCrTimeoutMs : Nat := 1000
def rxBlockSize : Byte := 0
def rxStminMs : Byte := 0

def pciTypeMask : Byte := 0xF0
def pciSf : Byte := 0x00
def pciFf : Byte := 0x10
def pciCf : Byte := 0x20
def pciFc : Byte := 0x30
def pciLowNibbleMask : Byte := 0x0F

def sfMaxPayload : Nat := 7
def ffPayloadLength : Nat := 6
def cfMaxPayload : Nat := 7

def fcStatusCts : Byte := 0
def fcStatusWait : Byte := 1
def fcStatusOverflow : Byte := 2

/-- `DiagPdu_t`, a buffer of 256 bytes; what is behind the length is never looked at. -/
structure DiagPdu where
  length : BitVec 16
  data : Nat → Byte

def DiagPdu.payload (pdu : DiagPdu) : List Byte := (List.range pdu.length.toNat).map pdu.data

inductive RxState where
  | idle | waitCf
  deriving DecidableEq, Repr

inductive TxState where
  | idle | waitFc | sendCf
  deriving DecidableEq, Repr

/-- The static variables of a reception. -/
structure Rx (τ : Type) where
  state : RxState
  pdu : DiagPdu
  offset : BitVec 16
  nextSn : Byte
  lastActivityTick : τ

/-- The static variables of a transmission. -/
structure Tx (τ : Type) where
  state : TxState
  pdu : DiagPdu
  offset : BitVec 16
  nextSn : Byte
  blockSize : Byte
  blockCounter : Byte
  stminMs : Byte
  lastActivityTick : τ
  lastCfTick : τ

/-- All of them, and `g_diagRequestQueue`. -/
structure State (τ : Type) where
  rx : Rx τ
  tx : Tx τ
  diagRequestQueue : List DiagPdu

/-- `CanTp_ClearFrame`. -/
def clearFrame : CanFrame := ⟨udsResponseId, 8, fun _ => 0⟩

/-- `PduR_CanTpTransmitCanFrame`: every frame is well formed, so the queue decides. -/
def transmitCanFrame (accept : Bool) (frame : CanFrame) : List CanFrame :=
  if accept then [frame] else []

def flowControlFrame (flowStatus blockSize stmin : Byte) : CanFrame :=
  ((clearFrame.set 0 (pciFc ||| (flowStatus &&& pciLowNibbleMask))).set 1 blockSize).set 2 stmin

/-- `CanTp_SendFlowControl`. -/
def sendFlowControl (accept : Bool) (flowStatus blockSize stmin : Byte) : List CanFrame :=
  transmitCanFrame accept (flowControlFrame flowStatus blockSize stmin)

def decodeStmin (stmin : Byte) : Byte :=
  if stmin ≤ 0x7F then stmin
  else if 0xF1 ≤ stmin ∧ stmin ≤ 0xF9 then 1
  else 127

/-- `CanTp_QueueRxPdu` with `PduR_CanTpRxIndication`. -/
def queueRxPdu (pdu : DiagPdu) (queue : List DiagPdu) : List DiagPdu :=
  if pdu.length = 0 ∨ diagMaxPduLength < pdu.length.toNat ∨ diagQueueLength ≤ queue.length then queue
  else queue ++ [pdu]

/-- How long ago `last` was, in the arithmetic of the code; `value` is what it sees of a tick. -/
def elapsed {τ : Type} (value : τ → Word) (now last : τ) : Nat := (value now - value last).toNat

/-! ## Reception -/

section

variable {τ : Type} [Zero τ]

def resetRx (rx : Rx τ) : Rx τ :=
  { rx with
    state := .idle
    offset := 0
    pdu := { rx.pdu with length := 0 }
    nextSn := 1
    lastActivityTick := 0 }

def handleSingleFrame (frame : CanFrame) (s : State τ) : State τ :=
  let sfLength := frame.byte 0 &&& pciLowNibbleMask
  if sfLength = 0 ∨ sfMaxPayload < sfLength.toNat ∨ frame.dlc.toNat < sfLength.toNat + 1 then s
  else
    { s with
      rx := if s.rx.state ≠ .idle then resetRx s.rx else s.rx
      diagRequestQueue :=
        queueRxPdu ⟨sfLength.setWidth 16, fun i => frame.byte (i + 1)⟩ s.diagRequestQueue }

def handleFirstFrame (accept : Bool) (now : τ) (frame : CanFrame) (s : State τ) :
    State τ × List CanFrame :=
  let totalLength : BitVec 16 :=
    (frame.byte 0 &&& pciLowNibbleMask).setWidth 16 <<< 8 ||| (frame.byte 1).setWidth 16
  if frame.dlc ≠ 8 then ({ s with rx := resetRx s.rx }, [])
  else if totalLength.toNat ≤ sfMaxPayload then ({ s with rx := resetRx s.rx }, [])
  else if diagMaxPduLength < totalLength.toNat ∨ diagQueueLength ≤ s.diagRequestQueue.length then
    ({ s with rx := resetRx s.rx }, sendFlowControl accept fcStatusOverflow 0 0)
  else
    let data := fun i => if i < ffPayloadLength then frame.byte (i + 2) else s.rx.pdu.data i
    let rx : Rx τ := ⟨.waitCf, ⟨totalLength, data⟩, BitVec.ofNat 16 ffPayloadLength, 1, now⟩
    -- without the flow control the tester would wait in vain
    ({ s with rx := if accept then rx else resetRx rx },
      sendFlowControl accept fcStatusCts rxBlockSize rxStminMs)

def handleConsecutiveFrame (now : τ) (frame : CanFrame) (s : State τ) : State τ :=
  if s.rx.state ≠ .waitCf ∨ frame.dlc ≤ 1 then s
  else if frame.byte 0 &&& pciLowNibbleMask ≠ s.rx.nextSn then { s with rx := resetRx s.rx }
  else
    let availableBytes : Word := frame.dlc.setWidth 32 - 1
    let remainingBytes : Word := s.rx.pdu.length.setWidth 32 - s.rx.offset.setWidth 32
    let bytesToCopy := if availableBytes < remainingBytes then availableBytes else remainingBytes
    let offset := s.rx.offset.toNat
    let data := fun i =>
      if offset ≤ i ∧ i < offset + bytesToCopy.toNat then frame.byte (i - offset + 1)
      else s.rx.pdu.data i
    let rx : Rx τ := { s.rx with
      pdu := { s.rx.pdu with data := data }
      offset := s.rx.offset + bytesToCopy.setWidth 16
      nextSn := (s.rx.nextSn + 1) &&& pciLowNibbleMask
      lastActivityTick := now }
    if rx.pdu.length ≤ rx.offset then
      { s with rx := resetRx rx, diagRequestQueue := queueRxPdu rx.pdu s.diagRequestQueue }
    else { s with rx := rx }

@[simp] theorem handleSingleFrame_tx (frame : CanFrame) (s : State τ) :
    (handleSingleFrame frame s).tx = s.tx := by
  unfold handleSingleFrame
  dsimp only
  split <;> rfl

@[simp] theorem handleFirstFrame_tx (accept : Bool) (now : τ) (frame : CanFrame) (s : State τ) :
    (handleFirstFrame accept now frame s).1.tx = s.tx := by
  unfold handleFirstFrame
  dsimp only
  repeat' split
  all_goals rfl

@[simp] theorem handleConsecutiveFrame_tx (now : τ) (frame : CanFrame) (s : State τ) :
    (handleConsecutiveFrame now frame s).tx = s.tx := by
  unfold handleConsecutiveFrame
  dsimp only
  repeat' split
  all_goals rfl

/-- A reception has waited too long for its next consecutive frame. -/
def NCrExpired (value : τ → Word) (now : τ) (rx : Rx τ) : Prop :=
  rx.state = .waitCf ∧ nCrTimeoutMs ≤ elapsed value now rx.lastActivityTick

instance (value : τ → Word) (now : τ) (rx : Rx τ) : Decidable (NCrExpired value now rx) :=
  inferInstanceAs (Decidable (_ ∧ _))

/-! ## Transmission -/

def resetTx (tx : Tx τ) : Tx τ :=
  { tx with
    state := .idle
    offset := 0
    pdu := { tx.pdu with length := 0 }
    nextSn := 1
    blockSize := 0
    blockCounter := 0
    stminMs := 0
    lastActivityTick := 0
    lastCfTick := 0 }

def handleFlowControl (now : τ) (frame : CanFrame) (tx : Tx τ) : Tx τ :=
  if frame.dlc < 3 ∨ tx.state ≠ .waitFc then tx
  else
    let flowStatus := frame.byte 0 &&& pciLowNibbleMask
    if flowStatus = fcStatusCts then
      { tx with
        blockSize := frame.byte 1
        blockCounter := 0
        stminMs := decodeStmin (frame.byte 2)
        lastActivityTick := now
        lastCfTick := now
        state := .sendCf }
    else if flowStatus = fcStatusWait then { tx with lastActivityTick := now }
    else if flowStatus = fcStatusOverflow then resetTx tx
    else resetTx tx

/-- What `CanTp_SendSingleFrame` hands to the queue. -/
def singleFrame (pdu : DiagPdu) : CanFrame :=
  (clearFrame.set 0 (pdu.length.setWidth 8)).copy 1 pdu.length.toNat pdu.data

def firstFrame (pdu : DiagPdu) : CanFrame :=
  ((clearFrame.set 0 (pciFf ||| ((pdu.length >>> 8).setWidth 8 &&& pciLowNibbleMask))).set 1
    (pdu.length.setWidth 8)).copy 2 ffPayloadLength pdu.data

/-- `CanTp_StartMultiFrameTransmit`; the length of the buffer goes back to zero on a refusal. -/
def startMultiFrameTransmit (accept : Bool) (now : τ) (pdu : DiagPdu) (tx : Tx τ) : Tx τ :=
  let data := fun i => if i < pdu.length.toNat then pdu.data i else tx.pdu.data i
  if accept then
    { tx with
      pdu := ⟨pdu.length, data⟩
      offset := BitVec.ofNat 16 ffPayloadLength
      nextSn := 1
      blockSize := 0
      blockCounter := 0
      stminMs := 0
      lastActivityTick := now
      state := .waitFc }
  else { tx with pdu := ⟨0, data⟩ }

def consecutiveFrame (sequenceNumber : Byte) (offset count : Nat) (pdu : DiagPdu) : CanFrame :=
  (clearFrame.set 0 (pciCf ||| (sequenceNumber &&& pciLowNibbleMask))).copy 1 count
    fun i => pdu.data (offset + i)

/-- How many bytes the next consecutive frame takes. -/
def bytesToCopy (tx : Tx τ) : Word :=
  let remainingBytes : Word := tx.pdu.length.setWidth 32 - tx.offset.setWidth 32
  if remainingBytes < BitVec.ofNat 32 cfMaxPayload then remainingBytes
  else BitVec.ofNat 32 cfMaxPayload

/-- `CanTp_SendNextConsecutiveFrame` once the queue has taken the frame. -/
def afterConsecutiveFrame (now : τ) (tx : Tx τ) : Tx τ :=
  let tx' : Tx τ := { tx with
    offset := tx.offset + (bytesToCopy tx).setWidth 16
    nextSn := (tx.nextSn + 1) &&& pciLowNibbleMask
    blockCounter := tx.blockCounter + 1
    lastCfTick := now
    lastActivityTick := now }
  if tx'.pdu.length ≤ tx'.offset then resetTx tx'
  else if tx'.blockSize ≠ 0 ∧ tx'.blockSize ≤ tx'.blockCounter then
    { tx' with blockCounter := 0, lastActivityTick := now, state := .waitFc }
  else tx'

/-- `CanTp_SendNextConsecutiveFrame`; a refused frame is tried again the next time. -/
def sendNextConsecutiveFrame (accept : Bool) (now : τ) (tx : Tx τ) : Tx τ × List CanFrame :=
  let frame := consecutiveFrame tx.nextSn tx.offset.toNat (bytesToCopy tx).toNat tx.pdu
  (if accept then afterConsecutiveFrame now tx else tx, transmitCanFrame accept frame)

/-- A transmission has waited too long for a flow control. -/
def NBsExpired (value : τ → Word) (now : τ) (tx : Tx τ) : Prop :=
  tx.state = .waitFc ∧ nBsTimeoutMs ≤ elapsed value now tx.lastActivityTick

/-- The next consecutive frame may be sent. -/
def CfDue (value : τ → Word) (now : τ) (tx : Tx τ) : Prop :=
  tx.state = .sendCf ∧ tx.stminMs.toNat ≤ elapsed value now tx.lastCfTick

instance (value : τ → Word) (now : τ) (tx : Tx τ) : Decidable (NBsExpired value now tx) :=
  inferInstanceAs (Decidable (_ ∧ _))

instance (value : τ → Word) (now : τ) (tx : Tx τ) : Decidable (CfDue value now tx) :=
  inferInstanceAs (Decidable (_ ∧ _))

/-- What the main function does about the transmission. -/
def advanceTx (accept : Bool) (value : τ → Word) (now : τ) (tx : Tx τ) : Tx τ × List CanFrame :=
  let tx := if NBsExpired value now tx then resetTx tx else tx
  if CfDue value now tx then sendNextConsecutiveFrame accept now tx else (tx, [])

/-! ## Entry points -/

/-- `CanTp_RxIndication`. -/
def rxIndication (accept : Bool) (now : τ) (frame : CanFrame) (s : State τ) :
    State τ × List CanFrame :=
  if frame.id ≠ udsRequestId ∨ frame.dlc = 0 ∨ 8 < frame.dlc then (s, [])
  else
    let pciType := frame.byte 0 &&& pciTypeMask
    if pciType = pciSf then (handleSingleFrame frame s, [])
    else if pciType = pciFf then handleFirstFrame accept now frame s
    else if pciType = pciCf then (handleConsecutiveFrame now frame s, [])
    else if pciType = pciFc then ({ s with tx := handleFlowControl now frame s.tx }, [])
    else (s, [])

/-- `PduR_DcmReadRequest`. -/
def readRequest (s : State τ) : Option DiagPdu × State τ :=
  match s.diagRequestQueue with
  | [] => (none, s)
  | pdu :: rest => (some pdu, { s with diagRequestQueue := rest })

/-- `CanTp_Transmit`: the result, and the frame that was queued. -/
def transmit (accept : Bool) (now : τ) (pdu : DiagPdu) (s : State τ) :
    Bool × State τ × List CanFrame :=
  if pdu.length = 0 ∨ diagMaxPduLength < pdu.length.toNat then (false, s, [])
  else if s.tx.state ≠ .idle then (false, s, [])
  else if pdu.length.toNat ≤ sfMaxPayload then
    (accept, s, transmitCanFrame accept (singleFrame pdu))
  else
    (accept, { s with tx := startMultiFrameTransmit accept now pdu s.tx },
      transmitCanFrame accept (firstFrame pdu))

/-- The critical section of `CanTp_MainFunction`, which has read the tick `now` before. -/
def mainFunction (accept : Bool) (value : τ → Word) (now : τ) (s : State τ) :
    State τ × List CanFrame :=
  let rx := if NCrExpired value now s.rx then resetRx s.rx else s.rx
  let (tx, frames) := advanceTx accept value now s.tx
  ({ s with rx := rx, tx := tx }, frames)

/-- `CanTp_Init`, with an empty request queue. -/
def init : State τ where
  rx := resetRx ⟨.idle, ⟨0, fun _ => 0⟩, 0, 0, 0⟩
  tx := resetTx ⟨.idle, ⟨0, fun _ => 0⟩, 0, 0, 0, 0, 0, 0, 0⟩
  diagRequestQueue := []

end

end CanTp
