import BootloaderV2.Manager
import BootloaderV2.Programming

/-!
# Diagnostic services

`boot_security.c` and `boot_uds.c`: the requests of the tester and their responses, as lists of
bytes.
-/

open BootConfig CrashM

namespace BootSecurity

def xorMask : Word := 0xA5C39E71
def rotate : Nat := 7

def rotateLeft (value : Word) (count : Nat) : Word := value <<< count ||| value >>> (32 - count)

def init : BootM Unit :=
  BootM.setSecurity fun s => { s with seed := 0, seedIssued := false, unlocked := false }

/-- `BootSecurity_GenerateSeed`, with the CAN timer as its source of noise. -/
def generateSeed : BootM Word := do
  let b ← CrashM.get
  let nonce := b.ram.security.nonce * 1664525 + 1013904223
  let mixed := nonce ^^^ b.hw.canTimer
  let seed := if mixed = 0 then 0x6D2B79F5 else mixed
  BootM.setSecurity fun s =>
    { s with unlocked := false, nonce := nonce, seed := seed, seedIssued := true }
  return seed

def expectedKey (seed : Word) : Word := rotateLeft (seed ^^^ xorMask) rotate

def validateKey (key : Word) : BootM Bool := do
  let ram ← BootM.getRam
  if !ram.security.seedIssued || key != expectedKey ram.security.seed then
    BootM.setSecurity fun s => { s with unlocked := false, seedIssued := false }
    return false
  BootM.setSecurity fun s => { s with seedIssued := false, unlocked := true }
  return true

end BootSecurity

namespace BootUds

def routineEraseApp : Nat := 0xFF00
def routineVerifyCrc : Nat := 0xFF01
def routineCommission : Nat := 0xFF02
def p2ServerMaxMs : Nat := 50
def p2StarServerMaxMs : Nat := 5000
def transferTimeoutLoops : Nat := 16000000

/-- Four bytes, the highest first. -/
def read32 (p : List Byte) : Word :=
  (p.getD 0 0).setWidth 32 <<< 24 ||| (p.getD 1 0).setWidth 32 <<< 16 |||
    (p.getD 2 0).setWidth 32 <<< 8 ||| (p.getD 3 0).setWidth 32

def write32 (v : Word) : List Byte :=
  [(v >>> 24).setWidth 8, (v >>> 16).setWidth 8, (v >>> 8).setWidth 8, v.setWidth 8]

def negative (sid nrc : Byte) : List Byte := [0x7F, sid, nrc]

/-- A slot identity in a response. -/
def slotByte (slot : SlotId) : Byte :=
  match slot with
  | none => 0xFF
  | some s => s.code.setWidth 8

def slotCodeByte (code : Word) : Byte :=
  if code = SlotId.unknownCode then 0xFF else code.setWidth 8

def flag (b : Bool) : Byte := if b then 1 else 0

def init : BootM Unit := do
  BootM.setUds fun _ => ⟨1, false, 0⟩
  BootSecurity.init
  let ram ← BootM.getRam
  BootProgramming.init ram.manager.activeSlot ram.manager.activeVersion

def abortDownload : BootM Unit := do
  let ram ← BootM.getRam
  let u := ram.update
  if u.journalValid ∧ BootUpdateState.preparing.code ≤ u.current.state ∧
      u.current.state < BootUpdateState.pendingActivation.code then
    let _ ← BootUpdate.abort .transferFailed
    BootProgramming.abort
    BootM.setUds fun u => { u with transferTimeout := 0 }
  else
    BootProgramming.abort
    BootM.setUds fun u => { u with transferTimeout := 0 }

def mainFunction : BootM Unit := do
  let ram ← BootM.getRam
  if ram.programming.downloadActive then
    BootM.setUds fun u => { u with transferTimeout := u.transferTimeout + 1 }
    if transferTimeoutLoops ≤ ram.uds.transferTimeout + 1 then abortDownload

/-- An answer: a positive response or a negative response code. -/
abbrev Answer : Type := Except Byte (List Byte)

def answer (nrc : Byte) (response : List Byte) : Answer :=
  if nrc = 0 then .ok response else .error nrc

/-- Service 0x10. -/
def sessionControl (q : List Byte) : BootM Answer := do
  if q.length ≠ 2 then return .error 0x13
  let session := q.getD 1 0
  if session ≠ 1 ∧ session ≠ 2 then return .error 0x12
  BootM.setUds fun u => { u with session := session }
  BootSecurity.init
  abortDownload
  BootProgramming.setAccess (session == 2) false
  let star := p2StarServerMaxMs / 10
  return .ok [0x50, session, BitVec.ofNat 8 (p2ServerMaxMs / 256), BitVec.ofNat 8 p2ServerMaxMs,
    BitVec.ofNat 8 (star / 256), BitVec.ofNat 8 star]

/-- Service 0x27. -/
def securityAccess (q : List Byte) : BootM Answer := do
  let ram ← BootM.getRam
  if ram.uds.session ≠ 2 then return .error 0x22
  if q.length = 2 ∧ q.getD 1 0 = 1 then
    let seed ← BootSecurity.generateSeed
    let ram ← BootM.getRam
    BootProgramming.setAccess (ram.uds.session == 2) ram.security.unlocked
    return .ok ([0x67, 1] ++ write32 seed)
  else if q.length = 6 ∧ q.getD 1 0 = 2 then
    let accepted ← BootSecurity.validateKey (read32 (q.drop 2))
    if !accepted then return .error 0x35
    let ram ← BootM.getRam
    BootProgramming.setAccess (ram.uds.session == 2) ram.security.unlocked
    return .ok [0x67, 2]
  else
    BootProgramming.setAccess (ram.uds.session == 2) ram.security.unlocked
    return .error 0x13

/-- The journal as DID 0xF104 reports it. -/
def journalReport (u : BootUpdate.State) : List Byte :=
  let j := u.current
  [1, flag u.journalValid, flag u.storageFault, 0] ++ write32 j.transactionId ++ write32 j.state ++
    write32 j.activeSlot ++ write32 j.targetSlot ++ write32 j.expectedSize ++
    write32 j.committedSize ++
    write32 (if u.storageFault then BootUpdateResult.journalError.code else j.lastResult)

/-- One slot in the report of DID 0xF105. -/
def slotReport (status : BootMetadataStatus) (r : BootSlotMetadata) : List Byte :=
  [match status with
    | .valid => r.state.setWidth 8
    | .empty => 0
    | .invalid => 0xFE,
    if status = .valid then r.bootAttempts.setWidth 8 else 0, 0, 0] ++
    write32 r.imageVersion ++ write32 r.sequence

/-- The lifecycle as DID 0xF105 reports it. -/
def lifecycleReport (ram : Ram) : List Byte :=
  let l := ram.lifecycle
  let a := l.metadataStatus .a
  let b := l.metadataStatus .b
  let valid : Byte := flag (a == .valid) ||| flag (b == .valid) <<< 1
  [1, valid, slotByte ram.programming.activeSlot, l.currentResetReason.code.setWidth 8] ++
    slotReport a (l.metadata .a) ++ slotReport b (l.metadata .b) ++
    [l.lastResult.setWidth 8, slotCodeByte l.failedSlot, slotCodeByte l.rollbackTarget,
      flag l.storageFault] ++ write32 l.failedVersion ++ write32 l.lastAttemptCount

/-- Service 0x22. -/
def readData (q : List Byte) : BootM Answer := do
  if q.length ≠ 3 then return .error 0x13
  let did := (q.getD 1 0).toNat * 256 + (q.getD 2 0).toNat
  let head : List Byte := [0x62, q.getD 1 0, q.getD 2 0]
  let ram ← BootM.getRam
  if did = 0xF101 then return .ok (head ++ [slotByte ram.programming.activeSlot])
  if did = 0xF103 then return .ok (head ++ [slotByte ram.programming.targetSlot])
  if did = 0xF102 then return .ok (head ++ write32 ram.programming.activeVersion)
  if did = 0xF104 then return .ok (head ++ journalReport ram.update)
  if did = 0xF105 then
    BootLifecycle.reload
    let ram ← BootM.getRam
    return .ok (head ++ lifecycleReport ram)
  return .error 0x31

/-- Routine 0xFF02: commissioning of the journal. -/
def commission (q : List Byte) : BootM Byte := do
  let ram ← BootM.getRam
  if q.length ≠ 5 then return 0x13
  if ram.uds.session ≠ 2 then return 0x22
  if !ram.security.unlocked then return 0x33
  let choice := q.getD 4 0
  if 1 < choice ∧ choice ≠ 0xFF then return 0x31
  let active : SlotId := if choice = 0xFF then none else if choice = 0 then some .a else some .b
  if !(← BootIsoTp.transmit) then return 0x72
  if !(← BootUpdate.initializeJournal active) then return 0x72
  if !(← BootLifecycle.init ram.lifecycle.currentResetReason) then return 0x72
  BootManager.captureActiveSlot false
  let ram ← BootM.getRam
  BootProgramming.init ram.manager.activeSlot ram.manager.activeVersion
  BootProgramming.setAccess true true
  return 0

/-- Service 0x31. -/
def routineControl (q : List Byte) : BootM Answer := do
  if q.length < 4 then return .error 0x13
  if q.getD 1 0 ≠ 1 then return .error 0x12
  let routine := (q.getD 2 0).toNat * 256 + (q.getD 3 0).toNat
  let response : List Byte := [0x71, 1, q.getD 2 0, q.getD 3 0]
  if routine = routineEraseApp then
    if q.length ≠ 12 then return .error 0x13
    return answer (← BootProgramming.erase (read32 (q.drop 4)).toNat (read32 (q.drop 8)).toNat)
      response
  if routine = routineVerifyCrc then
    if q.length ≠ 4 then return .error 0x13
    return answer (← BootProgramming.verify) response
  if routine = routineCommission then
    return answer (← commission q) response
  return .error 0x31

/-- Service 0x34. -/
def requestDownload (q : List Byte) : BootM Answer := do
  if q.length ≠ 11 then return .error 0x13
  if q.getD 1 0 ≠ 0 ∨ q.getD 2 0 ≠ 0x44 then return .error 0x31
  let nrc ← BootProgramming.download (read32 (q.drop 3)).toNat (read32 (q.drop 7)).toNat
  BootM.setUds fun u => { u with transferTimeout := 0 }
  let ram ← BootM.getRam
  let length := ram.programming.maxBlockLength
  return answer nrc [0x74, 0x20, BitVec.ofNat 8 (length / 256), BitVec.ofNat 8 length]

/-- Service 0x36. -/
def transferData (q : List Byte) : BootM Answer := do
  if q.length < 3 then return .error 0x13
  let nrc ← BootProgramming.transfer (q.getD 1 0) (q.drop 2)
  if nrc = 0 then
    BootM.setUds fun u => { u with transferTimeout := 0 }
    return .ok [0x76, q.getD 1 0]
  else return .error nrc

/-- Service 0x37. -/
def transferExit (q : List Byte) : BootM Answer := do
  if q.length ≠ 1 then return .error 0x13
  return answer (← BootProgramming.exit) [0x77]

/-- Service 0x11. -/
def ecuReset (q : List Byte) : BootM Answer := do
  let ram ← BootM.getRam
  if q.length ≠ 2 then return .error 0x13
  if q.getD 1 0 ≠ 1 then return .error 0x12
  if ram.uds.session ≠ 2 then return .error 0x22
  if !ram.security.unlocked then return .error 0x33
  if !BootProgramming.canReset ram then return .error 0x24
  BootM.setUds fun u => { u with resetPending := true }
  return .ok [0x51, 1]

/-- Service 0x3E. -/
def testerPresent (q : List Byte) : BootM Answer :=
  if q.length ≠ 2 ∨ q.getD 1 0 ≠ 0 then return .error 0x13 else return .ok [0x7E, 0]

def service (sid : Byte) (q : List Byte) : BootM Answer :=
  if sid = 0x10 then sessionControl q
  else if sid = 0x27 then securityAccess q
  else if sid = 0x22 then readData q
  else if sid = 0x31 then routineControl q
  else if sid = 0x34 then requestDownload q
  else if sid = 0x36 then transferData q
  else if sid = 0x37 then transferExit q
  else if sid = 0x11 then ecuReset q
  else if sid = 0x3E then testerPresent q
  else return .error 0x11

/-- `BootUds_ProcessRequest`; without a response the request is dropped. -/
def processRequest (q : List Byte) : BootM (Option (List Byte)) := do
  if q.length = 0 ∨ BootIsoTp.maxPduLength < q.length then return none
  let sid := q.headD 0
  let ram ← BootM.getRam
  BootProgramming.setAccess (ram.uds.session == 2) ram.security.unlocked
  match ← service sid q with
  | .ok response => return some response
  | .error nrc => return some (negative sid nrc)

end BootUds
