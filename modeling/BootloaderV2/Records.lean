import BootloaderV2.Config
import Mathlib.Tactic.IntervalCases

/-!
# Stored records

The three little-endian record layouts of `boot_types.h` and `boot_journal.h`.  `toList` lists a
record's words in storage order, `ofWords` reads a record back from its words.
-/

structure BootImageHeader where
  magic : Word
  headerVersion : Word
  imageSize : Word
  imageCrc32 : Word
  softwareVersion : Word
  buildId : Word
  vectorAddress : Word
  entryAddress : Word
  flags : Word
  reserved0 : Word
  reserved1 : Word
  reserved2 : Word
  reserved3 : Word
  reserved4 : Word
  reserved5 : Word
  headerCrc32 : Word
  deriving DecidableEq, Repr, Inhabited

namespace BootImageHeader

def size : Nat := 64

def toList (h : BootImageHeader) : List Word :=
  [h.magic, h.headerVersion, h.imageSize, h.imageCrc32, h.softwareVersion, h.buildId,
    h.vectorAddress, h.entryAddress, h.flags, h.reserved0, h.reserved1, h.reserved2, h.reserved3,
    h.reserved4, h.reserved5, h.headerCrc32]

def ofWords (w : Nat → Word) : BootImageHeader :=
  ⟨w 0, w 1, w 2, w 3, w 4, w 5, w 6, w 7, w 8, w 9, w 10, w 11, w 12, w 13, w 14, w 15⟩

def words (h : BootImageHeader) (k : Nat) : Word := h.toList.getD k 0

/-- The bytes of the header in memory. -/
def bytes (h : BootImageHeader) : Nat → Byte := Words.byteOf h.words

def ofBytes (b : Nat → Byte) : BootImageHeader := ofWords (Words.wordOf b)

/-- The header with all words zero. -/
def zero : BootImageHeader := ofWords fun _ => 0

theorem ofWords_words (h : BootImageHeader) : ofWords h.words = h := rfl

theorem words_ofWords (w : Nat → Word) {k : Nat} (hk : k < 16) : (ofWords w).words k = w k := by
  interval_cases k <;> rfl

theorem ofWords_congr {w w' : Nat → Word} (h : ∀ k, k < 16 → w k = w' k) :
    ofWords w = ofWords w' := by
  simp only [ofWords, mk.injEq]
  refine ⟨?_, ?_, ?_, ?_, ?_, ?_, ?_, ?_, ?_, ?_, ?_, ?_, ?_, ?_, ?_, ?_⟩ <;>
    exact h _ (by decide)

theorem ofBytes_bytes (h : BootImageHeader) : ofBytes h.bytes = h := by
  rw [ofBytes, bytes, funext (Words.wordOf_byteOf h.words), ofWords_words]

theorem ofBytes_congr {b b' : Nat → Byte} (h : ∀ i, i < size → b i = b' i) :
    ofBytes b = ofBytes b' :=
  ofWords_congr fun k hk => Words.wordOf_congr fun i _ hi => h i (by unfold size; omega)

theorem bytes_ofBytes (b : Nat → Byte) {i : Nat} (hi : i < size) : (ofBytes b).bytes i = b i := by
  have hk : i / 4 < 16 := by
    unfold size at hi
    omega
  rw [bytes, Words.byteOf, ofBytes, words_ofWords _ hk]
  exact Words.byteOf_wordOf b i

end BootImageHeader

structure BootUpdateJournal where
  magic : Word
  formatVersion : Word
  sequence : Word
  transactionId : Word
  activeSlot : Word
  targetSlot : Word
  state : Word
  targetVersion : Word
  expectedSize : Word
  committedSize : Word
  expectedCrc : Word
  lastBlockSequence : Word
  lastResult : Word
  flags : Word
  cachedHeader : BootImageHeader
  journalCrc : Word
  commitMarker : Word
  deriving DecidableEq, Repr, Inhabited

namespace BootUpdateJournal

def size : Nat := 128

def toList (r : BootUpdateJournal) : List Word :=
  [r.magic, r.formatVersion, r.sequence, r.transactionId, r.activeSlot, r.targetSlot, r.state,
    r.targetVersion, r.expectedSize, r.committedSize, r.expectedCrc, r.lastBlockSequence,
    r.lastResult, r.flags] ++ r.cachedHeader.toList ++ [r.journalCrc, r.commitMarker]

def ofWords (w : Nat → Word) : BootUpdateJournal :=
  ⟨w 0, w 1, w 2, w 3, w 4, w 5, w 6, w 7, w 8, w 9, w 10, w 11, w 12, w 13,
    BootImageHeader.ofWords fun k => w (14 + k), w 30, w 31⟩

def words (r : BootUpdateJournal) (k : Nat) : Word := r.toList.getD k 0

def bytes (r : BootUpdateJournal) : Nat → Byte := Words.byteOf r.words

def ofBytes (b : Nat → Byte) : BootUpdateJournal := ofWords (Words.wordOf b)

def zero : BootUpdateJournal := ofWords fun _ => 0

theorem ofWords_words (r : BootUpdateJournal) : ofWords r.words = r := rfl

theorem words_ofWords (w : Nat → Word) {k : Nat} (hk : k < 32) : (ofWords w).words k = w k := by
  interval_cases k <;> rfl

theorem ofWords_congr {w w' : Nat → Word} (h : ∀ k, k < 32 → w k = w' k) :
    ofWords w = ofWords w' := by
  have hh : BootImageHeader.ofWords (fun k => w (14 + k)) =
      BootImageHeader.ofWords fun k => w' (14 + k) :=
    BootImageHeader.ofWords_congr fun k hk => h _ (by omega)
  simp only [ofWords, mk.injEq, hh, true_and]
  refine ⟨?_, ?_, ?_, ?_, ?_, ?_, ?_, ?_, ?_, ?_, ?_, ?_, ?_, ?_, ?_, ?_⟩ <;>
    exact h _ (by decide)

theorem ofBytes_bytes (r : BootUpdateJournal) : ofBytes r.bytes = r := by
  rw [ofBytes, bytes, funext (Words.wordOf_byteOf r.words), ofWords_words]

theorem ofBytes_congr {b b' : Nat → Byte} (h : ∀ i, i < size → b i = b' i) :
    ofBytes b = ofBytes b' :=
  ofWords_congr fun k hk => Words.wordOf_congr fun i _ hi => h i (by unfold size; omega)

theorem bytes_ofBytes (b : Nat → Byte) {i : Nat} (hi : i < size) : (ofBytes b).bytes i = b i := by
  have hk : i / 4 < 32 := by
    unfold size at hi
    omega
  rw [bytes, Words.byteOf, ofBytes, words_ofWords _ hk]
  exact Words.byteOf_wordOf b i

/-- The last byte is the top byte of the commit marker. -/
theorem bytes_last (r : BootUpdateJournal) :
    r.bytes (size - 1) = r.commitMarker.extractLsb' 24 8 := rfl

end BootUpdateJournal

structure BootSlotMetadata where
  magic : Word
  formatVersion : Word
  slotId : Word
  imageVersion : Word
  state : Word
  bootAttempts : Word
  successfulBoots : Word
  updateCounter : Word
  sequence : Word
  lastResetReason : Word
  flags : Word
  lastResult : Word
  failedSlot : Word
  failedVersion : Word
  lastAttemptCount : Word
  rollbackTarget : Word
  reserved0 : Word
  reserved1 : Word
  metadataCrc32 : Word
  commitMarker : Word
  deriving DecidableEq, Repr, Inhabited

namespace BootSlotMetadata

def size : Nat := 80

def toList (r : BootSlotMetadata) : List Word :=
  [r.magic, r.formatVersion, r.slotId, r.imageVersion, r.state, r.bootAttempts, r.successfulBoots,
    r.updateCounter, r.sequence, r.lastResetReason, r.flags, r.lastResult, r.failedSlot,
    r.failedVersion, r.lastAttemptCount, r.rollbackTarget, r.reserved0, r.reserved1,
    r.metadataCrc32, r.commitMarker]

def ofWords (w : Nat → Word) : BootSlotMetadata :=
  ⟨w 0, w 1, w 2, w 3, w 4, w 5, w 6, w 7, w 8, w 9, w 10, w 11, w 12, w 13, w 14, w 15, w 16,
    w 17, w 18, w 19⟩

def words (r : BootSlotMetadata) (k : Nat) : Word := r.toList.getD k 0

def bytes (r : BootSlotMetadata) : Nat → Byte := Words.byteOf r.words

def ofBytes (b : Nat → Byte) : BootSlotMetadata := ofWords (Words.wordOf b)

def zero : BootSlotMetadata := ofWords fun _ => 0

theorem ofWords_words (r : BootSlotMetadata) : ofWords r.words = r := rfl

theorem words_ofWords (w : Nat → Word) {k : Nat} (hk : k < 20) : (ofWords w).words k = w k := by
  interval_cases k <;> rfl

theorem ofWords_congr {w w' : Nat → Word} (h : ∀ k, k < 20 → w k = w' k) :
    ofWords w = ofWords w' := by
  simp only [ofWords, mk.injEq]
  refine ⟨?_, ?_, ?_, ?_, ?_, ?_, ?_, ?_, ?_, ?_, ?_, ?_, ?_, ?_, ?_, ?_, ?_, ?_, ?_, ?_⟩ <;>
    exact h _ (by decide)

theorem ofBytes_bytes (r : BootSlotMetadata) : ofBytes r.bytes = r := by
  rw [ofBytes, bytes, funext (Words.wordOf_byteOf r.words), ofWords_words]

theorem ofBytes_congr {b b' : Nat → Byte} (h : ∀ i, i < size → b i = b' i) :
    ofBytes b = ofBytes b' :=
  ofWords_congr fun k hk => Words.wordOf_congr fun i _ hi => h i (by unfold size; omega)

theorem bytes_ofBytes (b : Nat → Byte) {i : Nat} (hi : i < size) : (ofBytes b).bytes i = b i := by
  have hk : i / 4 < 20 := by
    unfold size at hi
    omega
  rw [bytes, Words.byteOf, ofBytes, words_ofWords _ hk]
  exact Words.byteOf_wordOf b i

/-- The last byte is the top byte of the commit marker. -/
theorem bytes_last (r : BootSlotMetadata) :
    r.bytes (size - 1) = r.commitMarker.extractLsb' 24 8 := rfl

end BootSlotMetadata
