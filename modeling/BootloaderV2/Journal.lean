import BootloaderV2.FlashSpec

/-!
# The update journal

`boot_journal.c`: the record of the current update transaction, kept in two copies.
-/

open BootConfig NorFlash CrashM TwoCopy

namespace BootJournal

def magic : Word := 0x4A345642
def format : Word := 1
def commitMarker : Word := 0x434F4D54
def headerKnown : Word := 1
def checkpoint : Nat := 32768

def crcOffset : Nat := 120

def validate (r : BootUpdateJournal) : Bool :=
  if r.magic ≠ magic ∨ r.formatVersion ≠ format ∨ r.commitMarker ≠ commitMarker ∨
      r.journalCrc ≠ crc r.bytes crcOffset ∨
      BootUpdateState.aborted.code < r.state ∨ BootUpdateResult.commissioned.code < r.lastResult ∨
      (1 < r.activeSlot ∧ r.activeSlot ≠ SlotId.unknownCode) ∨
      1 < r.targetSlot ∨ r.targetSlot = r.activeSlot ∨
      slotSize < r.expectedSize.toNat ∨ r.expectedSize < r.committedSize ∨
      255 < r.lastBlockSequence ∨ r.flags &&& ~~~headerKnown ≠ 0 then false
  else if BootUpdateState.preparing.code ≤ r.state ∧
      r.state ≤ BootUpdateState.pendingActivation.code ∧
      r.expectedSize.toNat ≠ slotSize then false
  else if BootUpdateState.transferComplete.code ≤ r.state ∧
      r.state ≤ BootUpdateState.pendingActivation.code ∧
      (r.flags ≠ headerKnown ∨ r.committedSize ≠ r.expectedSize ∨
        r.targetVersion ≠ r.cachedHeader.softwareVersion ∨
        r.expectedCrc ≠ r.cachedHeader.imageCrc32) then false
  else true

theorem validate_marker {r : BootUpdateJournal} (h : validate r = true) :
    r.commitMarker = commitMarker := by
  unfold validate at h
  split at h
  · cases h
  · rename_i hn
    push Not at hn
    exact hn.2.2.1

/-- The journal as a two-copy record. -/
def recordFormat : Format BootUpdateJournal where
  size := journalRecordSize
  encode := BootUpdateJournal.bytes
  decode := BootUpdateJournal.ofBytes
  valid := validate
  sequence := BootUpdateJournal.sequence
  size_pos := by decide
  decode_congr := BootUpdateJournal.ofBytes_congr
  decode_encode := BootUpdateJournal.ofBytes_bytes
  encode_decode b _ hi := BootUpdateJournal.bytes_ofBytes b hi
  encode_last r h := by
    show r.bytes (BootUpdateJournal.size - 1) ≠ 0xFF
    rw [BootUpdateJournal.bytes_last, validate_marker h]
    decide

/-- The two copies as they lie on flash. -/
def copies (mem : Nat → Byte) (copy : Fin 2) (i : Nat) : Byte :=
  mem (FlashDriver.journalAddress copy + i)

def loadLatest (mem : Nat → Byte) : Loaded BootUpdateJournal := recordFormat.load (copies mem)

/-- The record as `commit` completes it, after the current one if there is one. -/
def completed (sequence : Word) (record : BootUpdateJournal) : BootUpdateJournal :=
  let next := { record with
    sequence := sequence
    magic := magic
    formatVersion := format
    commitMarker := commitMarker }
  { next with journalCrc := crc next.bytes crcOffset }

/-- `commit`, the writer behind `BootJournal_Commit` and `BootJournal_Initialize`; a record is
    returned when the call succeeds. -/
def commitRecord (record : BootUpdateJournal) (first : Bool) :
    BootM (Option BootUpdateJournal) := do
  let mem ← BootM.flash
  match loadLatest mem with
  | .valid copy previous =>
    if first then return none
    writeCopy recordFormat BootJournalStorage.port (1 - copy) (completed (previous.sequence + 1) record)
  | _ =>
    if !first then return none
    writeCopy recordFormat BootJournalStorage.port 0 (completed 1 record)

def commit (record : BootUpdateJournal) : BootM (Option BootUpdateJournal) :=
  commitRecord record false

def initializeStore (record : BootUpdateJournal) : BootM (Option BootUpdateJournal) :=
  commitRecord record true

end BootJournal
