import BootloaderV2.Dem
import BootloaderV2.CanTp
import BootloaderV2.Resets

/-!
# The diagnostic services of the application

`Dcm.c` with the identifiers of `Dcm_Cfg.c`: one complete request, and the response to it.
-/

namespace Dcm

open CanTp (DiagPdu diagMaxPduLength)

inductive DcmSession where
  | default | programming | extended
  deriving DecidableEq, Repr

/-- The static variables, those of `AppBootRequest.c`, and those of the events. -/
structure State where
  currentSession : DcmSession
  lastRequestTick : Word
  bootRequest : AppBootRequest.State
  dem : Dem.State

/-- What the readers of the identifiers find. -/
structure Readings where
  runningSlot : Slot
  runningVersion : Word
  vehicleSpeed : BitVec 16
  engineRpm : BitVec 16
  coolantTemp : Byte
  gear : Byte

def sidSessionControl : Byte := 0x10
def sidClearDiagnosticInformation : Byte := 0x14
def sidReadDtcInformation : Byte := 0x19
def sidReadDataByIdentifier : Byte := 0x22
def sidTesterPresent : Byte := 0x3E
def positiveResponseOffset : Byte := 0x40

def readDtcByStatusMask : Byte := 0x02
def groupOfDtcAll : Word := 0x00FFFFFF
def dtcStatusAvailability : Byte := 0x0D

def nrcServiceNotSupported : Byte := 0x11
def nrcSubfunctionNotSupported : Byte := 0x12
def nrcIncorrectLength : Byte := 0x13
def nrcRequestOutOfRange : Byte := 0x31

def p2ServerMaxMs : Nat := 50
def p2StarServerMaxMs : Nat := 5000
def s3TimeoutMs : Nat := 5000

/-- A PDU with these bytes. -/
def pdu (bytes : List Byte) : DiagPdu := ⟨BitVec.ofNat 16 bytes.length, fun i => bytes.getD i 0⟩

/-- `Dcm_SetNegativeResponse`. -/
def negativeResponse (requestSid nrc : Byte) : DiagPdu := pdu [0x7F, requestSid, nrc]

/-- A positive response that starts a new S3 period. -/
def answered (now : Word) (bytes : List Byte) (s : State) : DiagPdu × State :=
  (pdu bytes, { s with lastRequestTick := now })

def sessionOf (subFunction : Byte) : Option DcmSession :=
  if subFunction = 1 then some .default
  else if subFunction = 2 then some .programming
  else if subFunction = 3 then some .extended
  else none

def processSessionControl (now : Word) (request : DiagPdu) (s : State) : DiagPdu × State :=
  if request.length ≠ 2 then (negativeResponse sidSessionControl nrcIncorrectLength, s)
  else
    match sessionOf (request.data 1) with
    | none => (negativeResponse sidSessionControl nrcSubfunctionNotSupported, s)
    | some session =>
      let p2StarUnits := p2StarServerMaxMs / 10
      answered now
        [sidSessionControl + positiveResponseOffset, request.data 1,
          BitVec.ofNat 8 (p2ServerMaxMs / 256), BitVec.ofNat 8 (p2ServerMaxMs % 256),
          BitVec.ofNat 8 (p2StarUnits / 256), BitVec.ofNat 8 (p2StarUnits % 256)]
        { s with
          currentSession := session
          -- `Boot_RequestReprogramming`
          bootRequest :=
            if session = .programming then AppBootRequest.requestProgrammingReset now
            else s.bootRequest }

def processTesterPresent (now : Word) (request : DiagPdu) (s : State) : DiagPdu × State :=
  if request.length ≠ 2 then (negativeResponse sidTesterPresent nrcIncorrectLength, s)
  else if request.data 1 ≠ 0 then
    (negativeResponse sidTesterPresent nrcSubfunctionNotSupported, s)
  else answered now [sidTesterPresent + positiveResponseOffset, 0] s

/-- `DcmCfgVin`. -/
def vin : List Byte :=
  [0x54, 0x45, 0x53, 0x54, 0x53, 0x33, 0x32, 0x4B, 0x31, 0x34, 0x34, 0x30, 0x30, 0x30, 0x30, 0x30,
    0x31]

/-- `DcmCfgSoftwareVersion`. -/
def softwareVersion : List Byte := [0x56, 0x32, 0x2E, 0x30]

/-- `DcmDidConfigs`; none of the readers fails. -/
def didConfigs (r : Readings) : List (BitVec 16 × List Byte) :=
  [(0xF190, vin),
    (0xF100, softwareVersion),
    (0xF101, [r.runningSlot.code.setWidth 8]),
    (0xF102, [(r.runningVersion >>> 24).setWidth 8, (r.runningVersion >>> 16).setWidth 8,
      (r.runningVersion >>> 8).setWidth 8, r.runningVersion.setWidth 8]),
    (0x0101, [r.vehicleSpeed.setWidth 8, (r.vehicleSpeed >>> 8).setWidth 8]),
    (0x0102, [r.engineRpm.setWidth 8, (r.engineRpm >>> 8).setWidth 8]),
    (0x0103, [r.coolantTemp]),
    (0x0104, [r.gear])]

def processReadDid (now : Word) (r : Readings) (request : DiagPdu) (s : State) :
    DiagPdu × State :=
  if request.length ≠ 3 then (negativeResponse sidReadDataByIdentifier nrcIncorrectLength, s)
  else
    let did : BitVec 16 := (request.data 1).setWidth 16 <<< 8 ||| (request.data 2).setWidth 16
    match (didConfigs r).find? fun config => config.1 == did with
    | none =>
      (negativeResponse sidReadDataByIdentifier nrcRequestOutOfRange, { s with lastRequestTick := now })
    | some (_, data) =>
      if diagMaxPduLength < data.length + 3 then
        (negativeResponse sidReadDataByIdentifier nrcRequestOutOfRange,
          { s with lastRequestTick := now })
      else
        answered now ([sidReadDataByIdentifier + positiveResponseOffset, request.data 1,
          request.data 2] ++ data) s

def dtcBytes (dtc : Dem.DtcInfo) : List Byte :=
  [(dtc.code >>> 16).setWidth 8, (dtc.code >>> 8).setWidth 8, dtc.code.setWidth 8, dtc.status]

/-- The loop over the trouble codes; `none` when they do not fit. -/
def appendDtcs : List Dem.DtcInfo → List Byte → Option (List Byte)
  | [], bytes => some bytes
  | dtc :: dtcs, bytes =>
    if diagMaxPduLength < bytes.length + 4 then none
    else appendDtcs dtcs (bytes ++ dtcBytes dtc)

def processReadDtcInformation (now : Word) (request : DiagPdu) (s : State) : DiagPdu × State :=
  if request.length ≠ 3 then (negativeResponse sidReadDtcInformation nrcIncorrectLength, s)
  else if request.data 1 ≠ readDtcByStatusMask then
    (negativeResponse sidReadDtcInformation nrcSubfunctionNotSupported, s)
  else
    match appendDtcs (Dem.reportedDtcs (request.data 2) s.dem)
        [sidReadDtcInformation + positiveResponseOffset, readDtcByStatusMask,
          dtcStatusAvailability] with
    | none =>
      (negativeResponse sidReadDtcInformation nrcRequestOutOfRange, { s with lastRequestTick := now })
    | some bytes => answered now bytes s

def processClearDiagnosticInformation (now : Word) (request : DiagPdu) (s : State) :
    DiagPdu × State :=
  if request.length ≠ 4 then (negativeResponse sidClearDiagnosticInformation nrcIncorrectLength, s)
  else
    let groupOfDtc : Word := (request.data 1).setWidth 32 <<< 16 |||
      (request.data 2).setWidth 32 <<< 8 ||| (request.data 3).setWidth 32
    if groupOfDtc ≠ groupOfDtcAll then
      (negativeResponse sidClearDiagnosticInformation nrcRequestOutOfRange, s)
    else
      answered now [sidClearDiagnosticInformation + positiveResponseOffset]
        { s with dem := Dem.clearDtc s.dem }

/-- The services by their identifiers. -/
def dispatch (now : Word) (r : Readings) (request : DiagPdu) (s : State) : DiagPdu × State :=
  let sid := request.data 0
  if sid = sidSessionControl then processSessionControl now request s
  else if sid = sidClearDiagnosticInformation then processClearDiagnosticInformation now request s
  else if sid = sidTesterPresent then processTesterPresent now request s
  else if sid = sidReadDtcInformation then processReadDtcInformation now request s
  else if sid = sidReadDataByIdentifier then processReadDid now r request s
  else (negativeResponse sid nrcServiceNotSupported, s)

/-- `Dcm_ProcessRequest`; without a request in the buffer there is no response. -/
def processRequest (now : Word) (r : Readings) (request : DiagPdu) (s : State) :
    Option DiagPdu × State :=
  if request.length = 0 ∨ diagMaxPduLength < request.length.toNat then (none, s)
  else
    let (response, s) := dispatch now r request s
    (if response.length ≠ 0 then some response else none, s)

/-- The extended session ends when no request comes. -/
def superviseS3 (now : Word) (s : State) : State :=
  if s.currentSession = .extended ∧ s3TimeoutMs ≤ (now - s.lastRequestTick).toNat then
    { s with currentSession := .default, lastRequestTick := now }
  else s

/-- `Dcm_MainFunction`, which has read the tick `now`; `tick` is what `Boot_AppIfMainFunction` reads.
    When a reset is due it stores a record, and does not come back. -/
def mainFunction (now tick : Word) (running : Slot) (s : State) : Except RetainedRecord State :=
  match AppBootRequest.mainFunction tick running s.bootRequest with
  | some record => .error record
  | none => .ok (superviseS3 now s)

/-! ## The length of a response -/

/-- A response that the transport layer takes. -/
def Fits (response : DiagPdu) : Prop :=
  response.length ≠ 0 ∧ response.length.toNat ≤ diagMaxPduLength

theorem fits_pdu {bytes : List Byte} (hne : bytes ≠ []) (hle : bytes.length ≤ diagMaxPduLength) :
    Fits (pdu bytes) := by
  have hpos := List.length_pos_iff.2 hne
  have hlength : (pdu bytes).length.toNat = bytes.length := by
    unfold diagMaxPduLength at hle
    show (BitVec.ofNat 16 bytes.length).toNat = bytes.length
    rw [BitVec.toNat_ofNat, Nat.mod_eq_of_lt (by omega)]
  refine ⟨fun hz => ?_, by rw [hlength]; exact hle⟩
  rw [hz] at hlength
  simp at hlength
  omega

theorem fits_negativeResponse (requestSid nrc : Byte) : Fits (negativeResponse requestSid nrc) :=
  fits_pdu (List.cons_ne_nil _ _) (by simp [diagMaxPduLength])

theorem length_appendDtcs {dtcs : List Dem.DtcInfo} :
    ∀ {bytes bytes' : List Byte}, appendDtcs dtcs bytes = some bytes' →
      bytes.length ≤ diagMaxPduLength → bytes.length ≤ bytes'.length ∧
        bytes'.length ≤ diagMaxPduLength := by
  induction dtcs with
  | nil =>
    intro bytes bytes' h hle
    cases h
    exact ⟨le_rfl, hle⟩
  | cons dtc dtcs ih =>
    intro bytes bytes' h hle
    unfold appendDtcs at h
    split at h
    · cases h
    · have hfour : (dtcBytes dtc).length = 4 := rfl
      obtain ⟨hmore, hmax⟩ := ih h (by rw [List.length_append]; omega)
      rw [List.length_append] at hmore
      exact ⟨by omega, hmax⟩

theorem fits_processReadDtcInformation (now : Word) (request : DiagPdu) (s : State) :
    Fits (processReadDtcInformation now request s).1 := by
  unfold processReadDtcInformation
  split
  · exact fits_negativeResponse _ _
  split
  · exact fits_negativeResponse _ _
  split
  · exact fits_negativeResponse _ _
  · rename_i bytes happend
    obtain ⟨hpos, hle⟩ := length_appendDtcs happend (by simp [diagMaxPduLength])
    refine fits_pdu (fun hnil => ?_) hle
    rw [hnil] at hpos
    simp at hpos

theorem fits_processReadDid (now : Word) (r : Readings) (request : DiagPdu) (s : State) :
    Fits (processReadDid now r request s).1 := by
  unfold processReadDid
  split
  · exact fits_negativeResponse _ _
  dsimp only
  split
  · exact fits_negativeResponse _ _
  split
  · exact fits_negativeResponse _ _
  · rename_i hle
    refine fits_pdu (List.cons_ne_nil _ _) ?_
    simp only [List.cons_append, List.nil_append, List.length_cons]
    omega

theorem fits_processSessionControl (now : Word) (request : DiagPdu) (s : State) :
    Fits (processSessionControl now request s).1 := by
  unfold processSessionControl
  split
  · exact fits_negativeResponse _ _
  split
  · exact fits_negativeResponse _ _
  · exact fits_pdu (List.cons_ne_nil _ _) (by simp [diagMaxPduLength])

theorem fits_processTesterPresent (now : Word) (request : DiagPdu) (s : State) :
    Fits (processTesterPresent now request s).1 := by
  unfold processTesterPresent
  split
  · exact fits_negativeResponse _ _
  split
  · exact fits_negativeResponse _ _
  · exact fits_pdu (List.cons_ne_nil _ _) (by simp [diagMaxPduLength])

theorem fits_processClearDiagnosticInformation (now : Word) (request : DiagPdu) (s : State) :
    Fits (processClearDiagnosticInformation now request s).1 := by
  unfold processClearDiagnosticInformation
  split
  · exact fits_negativeResponse _ _
  dsimp only
  split
  · exact fits_negativeResponse _ _
  · exact fits_pdu (List.cons_ne_nil _ _) (by simp [diagMaxPduLength])

theorem fits_dispatch (now : Word) (r : Readings) (request : DiagPdu) (s : State) :
    Fits (dispatch now r request s).1 := by
  unfold dispatch
  dsimp only
  split
  · exact fits_processSessionControl _ _ _
  split
  · exact fits_processClearDiagnosticInformation _ _ _
  split
  · exact fits_processTesterPresent _ _ _
  split
  · exact fits_processReadDtcInformation _ _ _
  split
  · exact fits_processReadDid _ _ _ _
  · exact fits_negativeResponse _ _

/-- Every response is one that the transport layer takes. -/
theorem fits_processRequest {now : Word} {r : Readings} {request response : DiagPdu} {s : State}
    (h : (processRequest now r request s).1 = some response) : Fits response := by
  have hfits := fits_dispatch now r request s
  unfold processRequest at h
  split at h
  · cases h
  · dsimp only at h
    rw [if_pos hfits.1] at h
    cases h
    exact hfits

end Dcm
