import BootloaderV2.IsoTpClient

/-!
# The UDS client of the gateway

`uds.py` over any transport: the wait for the final response, and what each service checks of it.
Integers in a message have their highest byte first.
-/

namespace Gateway

/-- What the client and the flasher raise, and what comes from the transport. -/
inductive Raised where
  | transport (error : PyError)
  | runtimeError (message : String)
  | udsError (message : String)
  | negativeResponse (requestSid nrc : Byte)
  | valueError (message : String)
  deriving DecidableEq, Repr

/-- A `RuntimeError`, or of one of its subclasses. -/
def Raised.isRuntimeError : Raised → Bool
  | .transport (.isoTpError _) | .transport (.isoTpTimeoutError _)
  | .transport (.isoTpSequenceError _) => true
  | .runtimeError _ | .udsError _ | .negativeResponse _ _ => true
  | .transport .indexError | .transport (.valueError _) | .valueError _ => false

/-- What the client is built on, and the clock. -/
structure Transport (σ : Type) where
  request : List Byte → RaiseM σ Raised (List Byte)
  receiveResponse : Rat → RaiseM σ Raised (List Byte)
  monotonic : σ → Rat × σ
  sleep : Rat → σ → σ

/-- The ISO-TP client, with fuel for its loops. -/
def IsoTpClient.transport (w : World) (c : IsoTpClient) (fuel : Nat) : Transport Io where
  request payload := (c.request w payload fuel).mapError .transport
  receiveResponse timeout := (c.receiveResponse w timeout fuel).mapError .transport
  monotonic s := (w.clock s.clockReads, { s with clockReads := s.clockReads + 1 })
  sleep seconds s := { s with log := s.log ++ [.sleep seconds] }

/-- `FlashState` of the flasher. -/
inductive FlashState where
  | idle | enterProgrammingSession | securityAccess | selectTarget | erase | requestDownload
  | transferData | transferExit | verify | reset | done | interrupted | failed
  deriving DecidableEq, Repr

/-- A request, and what `_exchange` has returned or raised for it. -/
structure Exchanged where
  request : List Byte
  result : Except Raised (List Byte)

/-- The attributes of the client and of the flasher over the transport, and what has been said. -/
structure Tester (σ : Type) where
  link : σ
  p2StarSeconds : Rat
  state : FlashState
  said : List Exchanged

abbrev TesterM (σ : Type) : Type → Type := RaiseM (Tester σ) Raised

/-- `int.from_bytes(data, "big")`. -/
def fromBytes (data : List Byte) : Nat := data.foldl (fun n byte => n * 256 + byte.toNat) 0

/-- `n.to_bytes(width, "big")` of an integer that fits. -/
def toBytes (width n : Nat) : List Byte :=
  (List.range width).map fun i => BitVec.ofNat 8 (n / 256 ^ (width - 1 - i))

def sidDiagnosticSessionControl : Byte := 0x10
def sidClearDiagnosticInformation : Byte := 0x14
def sidReadDtcInformation : Byte := 0x19
def sidReadDataByIdentifier : Byte := 0x22
def sidTesterPresent : Byte := 0x3E
def sidEcuReset : Byte := 0x11
def sidSecurityAccess : Byte := 0x27
def sidRoutineControl : Byte := 0x31
def sidRequestDownload : Byte := 0x34
def sidTransferData : Byte := 0x36
def sidRequestTransferExit : Byte := 0x37
def positiveResponseOffset : Byte := 0x40

structure SessionTiming where
  session : Byte
  p2ServerMaxMs : Nat
  p2StarServerMaxMs : Nat
  rawResponse : List Byte

structure DtcRecord where
  code : Nat
  status : Byte
  deriving DecidableEq, Repr

structure DtcReport where
  statusAvailabilityMask : Byte
  records : List DtcRecord
  rawResponse : List Byte

namespace UdsClient

open RaiseM (raise lift)

variable {σ α : Type} (T : Transport σ)

def onLink (m : RaiseM σ Raised α) : TesterM σ α := fun s =>
  (m s.link).map fun r => (r.1, { s with link := r.2 })

def monotonic : TesterM σ Rat := fun s =>
  let r := T.monotonic s.link
  some (.ok r.1, { s with link := r.2 })

def sleep (seconds : Rat) : TesterM σ Unit :=
  RaiseM.modify fun s => { s with link := T.sleep seconds s.link }

/-- Keeps what became of a request. -/
def saying (q : List Byte) (m : TesterM σ (List Byte)) : TesterM σ (List Byte) := fun s =>
  (m s).map fun r => (r.1, { r.2 with said := r.2.said ++ [⟨q, r.1⟩] })

def pendingResponse (sid : Byte) : List Byte := [0x7F, sid, 0x78]

def boundExceeded : Raised := .udsError "ResponsePending exceeded bounded operation deadline"

/-- The loop of `_exchange`, with the pending responses that it still allows. -/
def awaitFinal (sid : Byte) (deadline : Rat) : Nat → List Byte → TesterM σ (List Byte)
  | 0, response =>
    if response = pendingResponse sid then do
      let _ ← monotonic T
      raise boundExceeded
    else return response
  | left + 1, response =>
    if response = pendingResponse sid then do
      let now ← monotonic T
      let remaining := deadline - now
      if remaining ≤ 0 then raise boundExceeded
      else
        let s ← RaiseM.get
        let next ← onLink (T.receiveResponse (min s.p2StarSeconds remaining))
        awaitFinal sid deadline left next
    else return response

/-- What `_exchange` checks of the final response. -/
def finalResponse (sid : Byte) (response : List Byte) : Except Raised (List Byte) :=
  match response with
  | [] => .error (.udsError "Received an empty UDS response")
  | first :: rest =>
    if first = 0x7F then
      match rest with
      | [request, nrc] =>
        if request ≠ sid then
          .error (.udsError ("Negative response SID echo mismatch: 0x" ++ hex 2 request.toNat))
        else .error (.negativeResponse request nrc)
      | _ => .error (.udsError "Malformed UDS negative response")
    else if first ≠ sid + positiveResponseOffset then
      .error (.udsError ("Expected positive SID 0x" ++ hex 2 (sid + positiveResponseOffset).toNat ++
        ", received 0x" ++ hex 2 first.toNat))
    else .ok response

/-- `_exchange`. -/
def exchange (q : List Byte) (sid : Byte) : TesterM σ (List Byte) :=
  saying q do
    let response ← onLink (T.request q)
    let now ← monotonic T
    let response ← awaitFinal T sid (now + 30) 120 response
    lift (finalResponse sid response)

def diagnosticSession (session : Byte) : TesterM σ SessionTiming := do
  let response ← exchange T [sidDiagnosticSessionControl, session] sidDiagnosticSessionControl
  if response.length ≠ 6 ∨ response.getD 1 0 ≠ session then
    raise (.udsError "Malformed DiagnosticSessionControl response")
  else
    let p2Ms := fromBytes ((response.drop 2).take 2)
    let p2StarMs := fromBytes ((response.drop 4).take 2) * 10
    if p2Ms = 0 ∨ p2StarMs = 0 then raise (.udsError "Invalid zero P2/P2* timing")
    else
      RaiseM.modify fun s => { s with p2StarSeconds := min ((p2StarMs : Rat) / 1000 + 1 / 10) 10 }
      return ⟨session, p2Ms, p2StarMs, response⟩

def testerPresent : TesterM σ (List Byte) := do
  let response ← exchange T [sidTesterPresent, 0x00] sidTesterPresent
  if response.length ≠ 2 ∨ response.getD 1 0 ≠ 0x00 then
    raise (.udsError "Malformed TesterPresent response")
  else return response

def securitySeed : TesterM σ Nat := do
  let response ← exchange T [sidSecurityAccess, 0x01] sidSecurityAccess
  if response.length ≠ 6 ∨ response.getD 1 0 ≠ 0x01 then
    raise (.udsError "Malformed SecurityAccess seed response")
  else return fromBytes (response.drop 2)

def securityKey (key : Nat) : TesterM σ (List Byte) := do
  let response ← exchange T ([sidSecurityAccess, 0x02] ++ toBytes 4 key) sidSecurityAccess
  if response ≠ [0x67, 0x02] then raise (.udsError "Malformed SecurityAccess key response")
  else return response

def routineStart (routineId : Nat) (parameters : List Byte) : TesterM σ (List Byte) := do
  let q := [sidRoutineControl, 0x01] ++ toBytes 2 routineId ++ parameters
  let response ← exchange T q sidRoutineControl
  if response.length ≠ 4 ∨ response.getD 1 0 ≠ 0x01 ∨
      fromBytes ((response.drop 2).take 2) ≠ routineId then
    raise (.udsError ("Malformed RoutineControl response for 0x" ++ hex 4 routineId))
  else return response

def requestDownload (address size : Nat) : TesterM σ Nat := do
  let q := [sidRequestDownload, 0x00, 0x44] ++ toBytes 4 address ++ toBytes 4 size
  let response ← exchange T q sidRequestDownload
  if response.length < 3 then raise (.udsError "Malformed RequestDownload response")
  else
    let lengthBytes := (response.getD 1 0 >>> 4) &&& 0x0F
    if lengthBytes = 0 ∨ response.length ≠ 2 + lengthBytes.toNat then
      raise (.udsError "Invalid maxNumberOfBlockLength format")
    else return fromBytes (response.drop 2)

def transferData (sequence : Byte) (data : List Byte) : TesterM σ (List Byte) := do
  let response ← exchange T ([sidTransferData, sequence] ++ data) sidTransferData
  if response.length ≠ 2 ∨ response.getD 1 0 ≠ sequence then
    raise (.udsError "TransferData block counter echo mismatch")
  else return response

def requestTransferExit : TesterM σ (List Byte) := do
  let response ← exchange T [sidRequestTransferExit] sidRequestTransferExit
  if response.length ≠ 1 then raise (.udsError "Malformed RequestTransferExit response")
  else return response

def ecuReset : TesterM σ (List Byte) := do
  let response ← exchange T [sidEcuReset, 0x01] sidEcuReset
  if response ≠ [0x51, 0x01] then raise (.udsError "Malformed ECUReset response")
  else return response

def didRequest (did : Nat) : List Byte :=
  [sidReadDataByIdentifier, BitVec.ofNat 8 ((did >>> 8) &&& 0xFF), BitVec.ofNat 8 (did &&& 0xFF)]

def readDid (did : Nat) : TesterM σ (List Byte) := do
  let response ← exchange T (didRequest did) sidReadDataByIdentifier
  if response.length < 3 ∨ fromBytes ((response.drop 1).take 2) ≠ did then
    raise (.udsError ("DID echo mismatch for 0x" ++ hex 4 did))
  else return response.drop 3

/-- The loop of `read_dtc_by_status_mask`: four bytes a record. -/
def dtcRecords : List Byte → List DtcRecord
  | high :: middle :: low :: status :: rest =>
    ⟨fromBytes [high, middle, low], status⟩ :: dtcRecords rest
  | _ => []

def readDtcByStatusMask (statusMask : Nat) : TesterM σ DtcReport :=
  if 0xFF < statusMask then raise (.valueError "DTC status mask must be in range 0..255")
  else do
    let response ← exchange T [sidReadDtcInformation, 0x02, BitVec.ofNat 8 statusMask]
      sidReadDtcInformation
    if response.length < 3 ∨ response.getD 1 0 ≠ 0x02 then
      raise (.udsError "Malformed ReadDTCInformation response")
    else if (response.length - 3) % 4 ≠ 0 then
      raise (.udsError "ReadDTCInformation record length is not divisible by four")
    else return ⟨response.getD 2 0, dtcRecords (response.drop 3), response⟩

def clearAllDtc : TesterM σ (List Byte) := do
  let response ← exchange T [sidClearDiagnosticInformation, 0xFF, 0xFF, 0xFF]
    sidClearDiagnosticInformation
  if response.length ≠ 1 then
    raise (.udsError "Malformed ClearDiagnosticInformation response")
  else return response

end UdsClient

end Gateway
