import BootloaderV2.Commission
import BootloaderV2.Opening

/-!
# The transfer of an image

An image comes in blocks of any length, passes through a buffer of one phrase, and ends on flash but
for its header, which is staged in RAM.  What is on flash after the last block depends on the image
alone.
-/

open BootConfig NorFlash CrashM TwoCopy

namespace BootUpdate

/-- The journal but for the block it counted last and its checksum. -/
def masked (r : BootUpdateJournal) : BootUpdateJournal :=
  { r with lastBlockSequence := 0, journalCrc := 0 }

theorem masked_completed {j r : BootUpdateJournal} {m : Nat → Byte} (n : Word)
    (h : BootJournal.Current m j) (hmagic : r.magic = j.magic)
    (hformat : r.formatVersion = j.formatVersion) (hmarker : r.commitMarker = j.commitMarker) :
    masked (BootJournal.completed n r) = masked { r with sequence := n } := by
  obtain ⟨k, hk⟩ := h
  obtain ⟨h₁, h₂, h₃, -⟩ := BootJournal.validate_iff.1
    (BootJournal.recordFormat.copy_eq_some.1 (BootJournal.recordFormat.copy_of_load hk)).1
  rw [h₁] at hmagic
  rw [h₂] at hformat
  rw [h₃] at hmarker
  unfold masked BootJournal.completed
  dsimp only
  rw [hmagic, hformat, hmarker]

/-- What counts as durable of a slot. -/
theorem durableSize_slot {n : Nat} (h : n ≤ slotSize) : durableSize n slotSize =
    if n = slotSize then slotSize - BootJournal.checkpoint
    else n / BootJournal.checkpoint * BootJournal.checkpoint := by
  have hss : slotSize = 7 * BootJournal.checkpoint := rfl
  have hcp : 0 < BootJournal.checkpoint := by decide
  unfold durableSize
  dsimp only
  generalize BootJournal.checkpoint = c at *
  have hdiv := Nat.div_add_mod n c
  have hmod := Nat.mod_lt n hcp
  by_cases hn : n = slotSize
  · subst hn
    rw [if_pos rfl, hss, Nat.mul_div_cancel _ hcp, if_pos (le_refl _)]
  · rw [if_neg hn, if_neg]
    have := Nat.div_mul_le_self n c
    omega

/-- A block is too short to pass two checkpoints. -/
theorem durableSize_step {n len : Nat} (hlen : len ≤ 128) (hle : n + len ≤ slotSize) :
    durableSize ((n + len) / 8 * 8) slotSize = durableSize (n / 8 * 8) slotSize ∨
    durableSize ((n + len) / 8 * 8) slotSize =
      durableSize (n / 8 * 8) slotSize + BootJournal.checkpoint := by
  have hss : slotSize = 229376 := rfl
  have hcp : BootJournal.checkpoint = 32768 := rfl
  rw [durableSize_slot (by omega), durableSize_slot (by omega), hcp]
  split <;> split <;> omega

end BootUpdate

namespace BootProgramming

open BootUpdate (InStep JournalOnly)

variable {b b' : Board} {t : Slot}

/-! ## The bytes on their way -/

/-- Where the header starts in a slot. -/
def headerOffset : Nat := 0x37000

/-- What the context holds of an image once `n` bytes have come in: whole phrases count as
    programmed, the rest waits in the buffer, and the header is staged. -/
structure Carry (img : Nat → Byte) (n : Nat) (c : Context) : Prop where
  programmed : c.programmedSize = n / 8 * 8
  buffered : c.bufferedSize = n % 8
  buffer : ∀ i, i < n % 8 → c.transferBuffer i = img (n / 8 * 8 + i)
  staged : ∀ i, i < BootImageHeader.size → c.stagedHeader.bytes i =
    if headerOffset + i < n / 8 * 8 then img (headerOffset + i) else 0xFF

/-- What the flash holds of it: the phrases before the header. -/
def Filled (t : Slot) (img : Nat → Byte) (n : Nat) (m₀ m : Nat → Byte) : Prop :=
  ∀ a, a < journalCopy0Address ∨ metadataSlotACopy0Address ≤ a →
    m a = place t.base (min (n / 8 * 8) headerOffset) img m₀ a

/-- A transfer started on `b₀` has received the first `n` bytes of the image. -/
structure Receiving (t : Slot) (img : Nat → Byte) (b₀ : Board) (n : Nat) (b : Board) : Prop where
  healthy : b.dev.Healthy
  ram : b.ram = { b₀.ram with update := b.ram.update, programming := b.ram.programming }
  context : b.ram.programming = { b₀.ram.programming with
    receivedSize := b.ram.programming.receivedSize
    programmedSize := b.ram.programming.programmedSize
    expectedBlockSequenceCounter := b.ram.programming.expectedBlockSequenceCounter
    bufferedSize := b.ram.programming.bufferedSize
    stagedHeader := b.ram.programming.stagedHeader
    transferBuffer := b.ram.programming.transferBuffer }
  inStep : InStep b
  carry : Carry img n b.ram.programming
  filled : Filled t img n b₀.mem b.mem

/-- The image ends with a header sector that is erased behind the header. -/
def TailErased (img : Nat → Byte) : Prop :=
  ∀ i, headerOffset + BootImageHeader.size ≤ i → i < slotSize → img i = 0xFF

variable {img : Nat → Byte} {b₀ : Board} {n : Nat}

theorem Receiving.target (h : Receiving t img b₀ n b) (hs : Started t b₀) :
    b.ram.programming.targetSlot = some t := by
  rw [h.context]
  exact hs.target

theorem Receiving.address (h : Receiving t img b₀ n b) (hs : Started t b₀) :
    b.ram.programming.targetAddress = t.base := by
  rw [h.context]
  exact hs.address

theorem Receiving.configured (h : Receiving t img b₀ n b) (hs : Started t b₀) :
    BootFlash.Configured b.ram.flash b.ram.programming.activeSlot t := by
  rw [h.ram, h.context]
  exact hs.configured

theorem Carry.start (hs : Started t b₀) : Carry img 0 b₀.ram.programming := by
  refine ⟨hs.programmed, hs.buffered, fun i hi => absurd hi (Nat.not_lt_zero i), fun i hi => ?_⟩
  rw [hs.staged, if_neg (by omega)]
  unfold erasedHeader BootImageHeader.size at *
  interval_cases i <;> rfl

theorem Receiving.start (hs : Started t b₀) (hd : b₀.dev.Healthy) : Receiving t img b₀ 0 b₀ := by
  refine ⟨hd, rfl, rfl, hs.inStep, .start hs, fun a _ => ?_⟩
  rw [place_outside (by omega)]

/-- The slot is erased where the image has not come yet. -/
theorem Filled.erased {m₀ m : Nat → Byte} {p : Nat} (h : Filled t img p m₀ m)
    (hm : Emptied t m₀) (hp : p % 8 = 0) (hle : p + 8 ≤ slotSize)
    (hin : p < headerOffset ∨ headerOffset + BootImageHeader.size ≤ p) :
    Erased m (t.base + p) flashPhraseSize := by
  have hend := t.header_lt_journal
  have hhdr := t.header_eq
  have hoff : headerOffset = 0x37000 := rfl
  have hsize : BootImageHeader.size = 64 := rfl
  have hps : flashPhraseSize = 8 := rfl
  intro i hi
  rw [h _ (.inl (by omega)), place_outside (by omega)]
  exact hm.erased _ ⟨by omega, by omega⟩ (by omega)

/-- What one full phrase of the image, the one at `p`, leaves behind. -/
structure Flushed (t : Slot) (img : Nat → Byte) (m₀ : Nat → Byte) (p : Nat) (b b' : Board) :
    Prop where
  healthy : b'.dev.Healthy
  ram : b'.ram = { b.ram with programming := { phraseFlushed b.ram.programming with
    stagedHeader := b'.ram.programming.stagedHeader } }
  staged : ∀ i, i < BootImageHeader.size → b'.ram.programming.stagedHeader.bytes i =
    if headerOffset + i < p + 8 then img (headerOffset + i) else 0xFF
  filled : Filled t img (p + 8) m₀ b'.mem
  journal : ∀ a, journalCopy0Address ≤ a → a < metadataSlotACopy0Address → b'.mem a = b.mem a

/-- The header after a phrase of it has been staged. -/
theorem bytes_stagedWith {h : BootImageHeader} {p : Nat} {phrase : Nat → Byte}
    (hp : headerOffset ≤ p) (hstaged : ∀ i, i < BootImageHeader.size → h.bytes i =
      if headerOffset + i < p then img (headerOffset + i) else 0xFF)
    (hphrase : ∀ i, i < 8 → phrase i = img (p + i)) :
    ∀ i, i < BootImageHeader.size → (stagedWith h (p - headerOffset) phrase).bytes i =
      if headerOffset + i < p + 8 then img (headerOffset + i) else 0xFF := by
  intro i hi
  have hps : flashPhraseSize = 8 := rfl
  unfold stagedWith
  rw [BootImageHeader.bytes_ofBytes _ hi]
  by_cases hin : p - headerOffset ≤ i ∧ i < p - headerOffset + flashPhraseSize
  · rw [if_pos hin, if_pos (by omega), hphrase _ (by omega)]
    exact congrArg img (by omega)
  · rw [if_neg hin, hstaged i hi]
    exact if_congr (by omega) rfl rfl

/-- Outside the header window a phrase is programmed where the slot is still erased. -/
theorem Filled.programmed {m₀ m : Nat → Byte} {p : Nat} {data : Nat → Byte}
    (h : Filled t img p m₀ m) (hm : Emptied t m₀) (htail : TailErased img) (hp : p % 8 = 0)
    (hle : p + 8 ≤ slotSize) (hdata : ∀ i, i < 8 → data i = img (p + i))
    (hin : p < headerOffset ∨ headerOffset + BootImageHeader.size ≤ p) :
    Filled t img (p + 8) m₀ (place (t.base + p) flashPhraseSize data m) := by
  have hoff : headerOffset = 225280 := rfl
  have hsize : BootImageHeader.size = 64 := rfl
  have hps : flashPhraseSize = 8 := rfl
  have hss : slotSize = 229376 := rfl
  have hhdr := t.header_eq
  intro a ha
  by_cases hhere : t.base + p ≤ a ∧ a < t.base + p + flashPhraseSize
  · obtain ⟨i, rfl⟩ := Nat.exists_eq_add_of_le hhere.1
    rw [place_inside (by omega), hdata i (by omega)]
    rcases hin with hlow | hhigh
    · rw [Nat.add_assoc, place_inside (by omega)]
    · -- the tail of the header sector is erased already
      rw [place_outside (by omega), htail _ (by omega) (by omega)]
      exact (hm.erased _ ⟨by omega, by omega⟩ (by omega)).symm
  · rw [place_outside (by omega), h a ha]
    rcases hin with hlow | hhigh
    · rw [show min (p / 8 * 8) headerOffset = p by omega,
        show min ((p + 8) / 8 * 8) headerOffset = p + 8 by omega]
      unfold place
      exact if_congr (by omega) rfl rfl
    · rw [show min (p / 8 * 8) headerOffset = headerOffset by omega,
        show min ((p + 8) / 8 * 8) headerOffset = headerOffset by omega]

/-- `flush_phrase` on a healthy device takes the phrase of the image at `p`. -/
theorem completes_flushPhrase {m₀ : Nat → Byte} {p : Nat} (hd : b.dev.Healthy)
    (hcfg : BootFlash.Configured b.ram.flash b.ram.programming.activeSlot t)
    (htarget : b.ram.programming.targetSlot = some t)
    (haddress : b.ram.programming.targetAddress = t.base)
    (hprog : b.ram.programming.programmedSize = p) (hp : p % 8 = 0) (hle : p + 8 ≤ slotSize)
    (hbuf : ∀ i, i < 8 → b.ram.programming.transferBuffer i = img (p + i))
    (htail : TailErased img) (hm : Emptied t m₀)
    (hstaged : ∀ i, i < BootImageHeader.size → b.ram.programming.stagedHeader.bytes i =
      if headerOffset + i < p then img (headerOffset + i) else 0xFF)
    (hfill : Filled t img p m₀ b.mem) :
    Completes flushPhrase (fun ok b' => ok = true ∧ Flushed t img m₀ p b b') b := by
  have hoff : headerOffset = 225280 := rfl
  have hsize : BootImageHeader.size = 64 := rfl
  have hps : flashPhraseSize = 8 := rfl
  have hss : slotSize = 229376 := rfl
  have hhdr := t.header_eq
  have hend := t.header_lt_journal
  unfold flushPhrase
  rw [Completes.bind_getRam]
  dsimp only
  rw [htarget, haddress, hprog, show BootSlot.getHeaderAddress (some t) = t.header from rfl]
  refine .ite (fun hno => ?_) fun _ => .ite (fun hwin => ?_) fun hout => ?_
  · -- the phrase lies in the target, which is not the active slot
    have hin : BootSlot.containsRange (some t) (t.base + p) flashPhraseSize = true :=
      BootFlash.containsRange_iff.2 ⟨by decide, by omega, by omega⟩
    rw [hin] at hno
    exact absurd hno (by simp [Ne.symm hcfg.apart])
  · -- inside the header window the phrase is staged
    rw [Completes.bind_setProgramming]
    refine .pure ⟨rfl, hd, rfl, ?_, fun a ha => ?_, fun _ _ _ => rfl⟩
    · rw [show t.base + p - t.header = p - headerOffset by omega]
      exact bytes_stagedWith (by omega) hstaged hbuf
    · have := hfill a ha
      rw [Nat.min_eq_right (by omega)] at this ⊢
      exact this
  have hin : p < headerOffset ∨ headerOffset + BootImageHeader.size ≤ p := by omega
  refine .ite (fun hno => ?_) fun _ => ?_
  · -- behind the header the image is erased
    refine absurd hno.2 ?_
    simp only [Bool.not_eq_true', Bool.not_eq_false, TwoCopy.blank, decide_eq_true_eq]
    intro i hi
    rw [hbuf i hi]
    exact htail _ (by omega) (by omega)
  refine (BootFlash.completes_program hcfg hd (by decide)
    (by omega) (by omega) ?_ rfl (hfill.erased hm hp hle hin)).bind ?_
  · have := t.header_aligned.1
    rw [show flashSectorSize = 4096 from rfl] at this
    rw [hps]
    omega
  rintro ok b' ⟨rfl, d, rfl, hdev, hmem⟩
  refine .ite (fun h => absurd h (by decide)) fun _ => ?_
  rw [Completes.bind_setProgramming]
  refine .pure ⟨rfl, hdev, rfl, fun i hi => ?_, ?_, fun a ha ha' => ?_⟩
  · show b.ram.programming.stagedHeader.bytes i = _
    rw [hstaged i hi]
    exact if_congr (by omega) rfl rfl
  · show Filled t img (p + 8) m₀ d.mem
    rw [hmem]
    exact hfill.programmed hm htail hp hle hbuf hin
  · show d.mem a = _
    rw [hmem]
    exact place_outside (by omega)

/-- The board once a byte has gone into the buffer. -/
def took (b : Board) (byte : Byte) : Board :=
  { b with ram := { b.ram with programming := { b.ram.programming with
    transferBuffer :=
      Function.update b.ram.programming.transferBuffer b.ram.programming.bufferedSize byte
    bufferedSize := b.ram.programming.bufferedSize + 1 } } }

theorem Receiving.buffer (h : Receiving t img b₀ n b) {i : Nat} (hi : i < n % 8 + 1) :
    (took b (img n)).ram.programming.transferBuffer i = img (n / 8 * 8 + i) := by
  show Function.update b.ram.programming.transferBuffer b.ram.programming.bufferedSize (img n) i = _
  rw [h.carry.buffered]
  by_cases hlast : i = n % 8
  · rw [hlast, Function.update_self]
    exact congrArg img (by omega)
  · rw [Function.update_of_ne hlast]
    exact h.carry.buffer i (by omega)

/-- A byte that does not fill the buffer. -/
theorem Receiving.push (h : Receiving t img b₀ n b) (hn : n % 8 ≠ 7) :
    Receiving t img b₀ (n + 1) (took b (img n)) := by
  have hdiv : (n + 1) / 8 = n / 8 := by omega
  have hmod : (n + 1) % 8 = n % 8 + 1 := by omega
  refine ⟨h.healthy, ?_, ?_, ⟨h.inStep.can, h.inStep.current⟩, ⟨?_, ?_, fun i hi => ?_, ?_⟩, ?_⟩
  · unfold took
    dsimp only
    rw [h.ram]
  · unfold took
    dsimp only
    rw [h.context]
  · rw [hdiv]
    exact h.carry.programmed
  · rw [hmod]
    exact congrArg (· + 1) h.carry.buffered
  · rw [hdiv]
    exact h.buffer (by omega)
  · rw [hdiv]
    exact h.carry.staged
  · unfold Filled
    rw [hdiv]
    exact h.filled

/-- The variables and sectors a byte that comes in does not concern. -/
structure Untouched (b b' : Board) : Prop where
  update : b'.ram.update = b.ram.update
  received : b'.ram.programming.receivedSize = b.ram.programming.receivedSize
  counter : b'.ram.programming.expectedBlockSequenceCounter =
    b.ram.programming.expectedBlockSequenceCounter

theorem Untouched.trans {b₁ b₂ b₃ : Board} (h : Untouched b₁ b₂) (h' : Untouched b₂ b₃) :
    Untouched b₁ b₃ :=
  ⟨h'.update.trans h.update, h'.received.trans h.received, h'.counter.trans h.counter⟩

/-- The byte that fills the buffer sends a phrase on its way. -/
theorem Receiving.completes_flush (hs : Started t b₀) (htail : TailErased img)
    (h : Receiving t img b₀ n b) (hn : n % 8 = 7) (hle : n + 1 ≤ slotSize) :
    Completes flushPhrase (fun ok b' => ok = true ∧ Receiving t img b₀ (n + 1) b' ∧
      Untouched b b') (took b (img n)) := by
  have hdiv : (n + 1) / 8 * 8 = n / 8 * 8 + 8 := by omega
  have hmod : (n + 1) % 8 = 0 := by omega
  have hjournal := h.inStep
  refine (completes_flushPhrase (b := took b (img n)) (p := n / 8 * 8) h.healthy
    (h.configured hs) (h.target hs) (h.address hs) h.carry.programmed (by omega) (by omega)
    (fun i hi => h.buffer (by omega)) htail hs.emptied h.carry.staged ?_).mono ?_
  · have := h.filled
    unfold Filled at this ⊢
    rw [show n / 8 * 8 / 8 = n / 8 by omega]
    exact this
  rintro ok b' ⟨rfl, hf⟩
  have hprog := congrArg Ram.programming hf.ram
  have hupdate := congrArg Ram.update hf.ram
  dsimp only [phraseFlushed, took] at hprog hupdate
  refine ⟨rfl, ⟨hf.healthy, ?_, ?_, hjournal.congr hupdate hf.journal, ⟨?_, ?_, ?_, ?_⟩, ?_⟩,
    hupdate, ?_, ?_⟩
  · rw [hf.ram]
    unfold took
    dsimp only
    rw [h.ram]
  · rw [hprog, h.context]
  · rw [hprog, hdiv]
    exact congrArg (· + 8) h.carry.programmed
  · rw [hprog, hmod]
  · intro i hi
    rw [hmod] at hi
    exact absurd hi (Nat.not_lt_zero i)
  · rw [hdiv]
    exact hf.staged
  · have := hf.filled
    unfold Filled at this ⊢
    rwa [hdiv, show (n / 8 * 8 + 8) / 8 * 8 = n / 8 * 8 + 8 by omega] at *
  · rw [hprog]
  · rw [hprog]

/-- `len` bytes of the image from `n` on. -/
def block (img : Nat → Byte) (n len : Nat) : List Byte := (List.range len).map fun i => img (n + i)

@[simp] theorem length_block (img : Nat → Byte) (n len : Nat) : (block img n len).length = len := by
  simp [block]

theorem block_succ (img : Nat → Byte) (n len : Nat) :
    block img n (len + 1) = img n :: block img (n + 1) len := by
  unfold block
  rw [List.range_succ_eq_map, List.map_cons, List.map_map, Nat.add_zero]
  refine congrArg _ (List.map_congr_left fun i _ => ?_)
  exact congrArg img (by simp only [Nat.succ_eq_add_one]; omega)

/-- The loop of `BootProgramming_Transfer` takes the next bytes of the image. -/
theorem completes_transferLoop {len : Nat} (hs : Started t b₀) (htail : TailErased img)
    (h : Receiving t img b₀ n b) (hle : n + len ≤ slotSize) :
    Completes (transferLoop (block img n len)) (fun ok b' => ok = true ∧
      Receiving t img b₀ (n + len) b' ∧ Untouched b b') b := by
  -- the bytes that are left, from wherever the loop stands
  induction len generalizing b n with
  | zero => exact .pure ⟨rfl, h, rfl, rfl, rfl⟩
  | succ len ih =>
    rw [block_succ]
    unfold transferLoop
    rw [Completes.bind_setProgramming, Completes.bind_getRam]
    have hcount : n + (len + 1) = n + 1 + len := by omega
    have hbuf : b.ram.programming.bufferedSize = n % 8 := h.carry.buffered
    refine .ite (fun hfull => ?_) fun hroom => ?_
    · replace hfull : b.ram.programming.bufferedSize + 1 = 8 := hfull
      refine (h.completes_flush hs htail (by omega) (by omega)).bind ?_
      rintro ok b₁ ⟨rfl, h₁, hu₁⟩
      refine .ite (fun hn => absurd hn (by decide)) fun _ => ?_
      rw [hcount]
      refine (ih h₁ (by omega)).mono ?_
      rintro ok b₂ ⟨rfl, h₂, hu₂⟩
      exact ⟨rfl, h₂, hu₁.trans hu₂⟩
    · replace hroom : ¬ b.ram.programming.bufferedSize + 1 = 8 := hroom
      have hmod := Nat.mod_lt n (show 0 < 8 by decide)
      rw [hcount]
      refine (ih (h.push (by omega)) (by omega)).mono ?_
      rintro ok b₂ ⟨rfl, h₂, hu₂⟩
      exact ⟨rfl, h₂, hu₂.update, hu₂.received, hu₂.counter⟩

/-! ## The record of the progress -/

/-- The checkpoints that `n` bytes have passed. -/
def passed (n : Nat) : Nat := BootUpdate.durableSize (n / 8 * 8) slotSize

/-- What the journal tells of the first `n` bytes of a transfer started on `b₀`. -/
structure Progress (b₀ : Board) (n : Nat) (b : Board) : Prop where
  received : b.ram.programming.receivedSize = n
  record : BootUpdate.masked b.ram.update.current = BootUpdate.masked { b₀.ram.update.current with
    sequence := b₀.ram.update.current.sequence + BitVec.ofNat 32 (passed n / BootJournal.checkpoint)
    committedSize := BitVec.ofNat 32 (passed n) }

namespace Progress

theorem start (hs : Started t b₀) : Progress b₀ 0 b₀ := by
  refine ⟨hs.received, ?_⟩
  rw [show passed 0 = 0 by decide, Nat.zero_div]
  have hsame : b₀.ram.update.current = { b₀.ram.update.current with
      sequence := b₀.ram.update.current.sequence + 0#32, committedSize := 0#32 } := by
    rw [BitVec.add_zero, ← show b₀.ram.update.current.committedSize = 0#32 from hs.committed]
  exact congrArg BootUpdate.masked hsame

variable (h : Progress b₀ n b) (hs : Started t b₀)
include h hs

theorem state : b.ram.update.current.state = BootUpdateState.programming.code := by
  have := congrArg BootUpdateJournal.state h.record
  exact this.trans hs.state

theorem expected : b.ram.update.current.expectedSize.toNat = slotSize := by
  have := congrArg BootUpdateJournal.expectedSize h.record
  exact (congrArg BitVec.toNat this).trans hs.expected

omit hs in
theorem committed (hn : n ≤ slotSize) : b.ram.update.current.committedSize.toNat = passed n := by
  have := congrArg BootUpdateJournal.committedSize h.record
  have hle : passed n ≤ slotSize := durableSize_le (by omega)
  refine (congrArg BitVec.toNat this).trans ?_
  show (BitVec.ofNat 32 (passed n)).toNat = _
  rw [BitVec.toNat_ofNat]
  exact Nat.mod_eq_of_lt (lt_of_le_of_lt hle (by decide))

end Progress

/-- `BootUpdate_SetProgress` after a block commits when a checkpoint has been passed. -/
theorem completes_setProgress {len : Nat} {sequence : Byte} (hs : Started t b₀)
    (h : Receiving t img b₀ (n + len) b) (hready : b.ram.flash.ready = true)
    (hp : BootUpdate.masked b.ram.update.current = BootUpdate.masked { b₀.ram.update.current with
      sequence := b₀.ram.update.current.sequence + BitVec.ofNat 32 (passed n / BootJournal.checkpoint)
      committedSize := BitVec.ofNat 32 (passed n) })
    (hreceived : b.ram.programming.receivedSize = n + len) (hlen : len ≤ 128)
    (hle : n + len ≤ slotSize) :
    Completes (BootUpdate.setProgress b.ram.programming.programmedSize sequence) (fun ok b' =>
      ok = true ∧ Receiving t img b₀ (n + len) b' ∧ Progress b₀ (n + len) b' ∧
      b'.ram.programming = b.ram.programming) b := by
  have hprog : Progress b₀ n { b with ram := { b.ram with programming :=
    { b.ram.programming with receivedSize := n } } } := ⟨rfl, hp⟩
  have hstate : b.ram.update.current.state = BootUpdateState.programming.code := hprog.state hs
  have hexp : b.ram.update.current.expectedSize.toNat = slotSize := hprog.expected hs
  have hcom : b.ram.update.current.committedSize.toNat = passed n := hprog.committed (by omega)
  unfold BootUpdate.setProgress
  rw [Completes.bind_getRam]
  dsimp only
  rw [hexp, hcom, h.carry.programmed]
  refine .ite (fun hno => ?_) fun _ => ?_
  · refine absurd hno ?_
    rw [h.inStep.can, hstate]
    simp only [Bool.not_true, bne_self_eq_false, Bool.false_or, decide_eq_true_eq, not_lt]
    omega
  have hstep := BootUpdate.durableSize_step (n := n) hlen hle
  refine .ite (fun hsame => ?_) fun hmore => ?_
  · -- no checkpoint has been passed
    have heq : passed (n + len) = passed n := by
      unfold passed at *
      have : 0 < BootJournal.checkpoint := by decide
      omega
    exact .pure ⟨rfl, h, ⟨hreceived, by rw [heq]; exact hp⟩, rfl⟩
  -- one checkpoint has been passed, and it is saved
  have heq : passed (n + len) = passed n + BootJournal.checkpoint := by
    unfold passed at *
    omega
  have hdur : BootUpdate.durableSize ((n + len) / 8 * 8) slotSize ≤
      b.ram.update.current.expectedSize.toNat := by
    rw [hexp]
    exact durableSize_le (by omega)
  generalize hpassed : passed (n + len) = d at heq
  rw [show BootUpdate.durableSize ((n + len) / 8 * 8) slotSize = d from hpassed] at hdur ⊢
  have hwf := h.inStep.current.wellFormed.progress hstate hdur sequence
  refine (BootUpdate.completes_save h.inStep hready h.healthy hwf).mono ?_
  rintro ok b' ⟨rfl, hdev, hl⟩
  obtain ⟨j, hj, hcur⟩ := hl.record
  obtain rfl := hj.unique h.inStep.current
  have hprogramming : b'.ram.programming = b.ram.programming := by rw [hl.ram]
  have hsequence := congrArg BootUpdateJournal.sequence hp
  refine ⟨rfl, ⟨hdev, ?_, ?_, hl.inStep, ?_, fun a ha => ?_⟩, ⟨?_, ?_⟩, hprogramming⟩
  · rw [hl.ram, h.ram]
  · rw [hprogramming]
    exact h.context
  · rw [hprogramming]
    exact h.carry
  · rw [hl.only a ha]
    exact h.filled a ha
  · rw [hprogramming]
    exact hreceived
  · have hone : b.ram.update.current.sequence + 1 = b₀.ram.update.current.sequence +
        BitVec.ofNat 32 (passed (n + len) / BootJournal.checkpoint) := by
      have hnext : passed (n + len) / BootJournal.checkpoint =
          passed n / BootJournal.checkpoint + 1 := by
        rw [hpassed, heq]
        exact Nat.add_div_right _ (by decide)
      rw [hnext, BitVec.ofNat_add, ← BitVec.add_assoc]
      exact congrArg (· + 1) hsequence
    rw [hcur]
    refine (BootUpdate.masked_completed _ h.inStep.current ?_ ?_ ?_).trans ?_
    · rfl
    · rfl
    · rfl
    rw [hone, hpassed]
    exact congrArg (fun r : BootUpdateJournal => { r with
      sequence := b₀.ram.update.current.sequence + BitVec.ofNat 32 (d / BootJournal.checkpoint)
      committedSize := BitVec.ofNat 32 d }) hp

/-! ## Blocks -/

namespace Receiving

variable (h : Receiving t img b₀ n b) (hs : Started t b₀)
include h hs

theorem access : accessCheck b.ram = 0 := by
  have hsession := accessCheck_eq_zero.1 hs.access
  rw [accessCheck_eq_zero, h.context]
  exact ⟨hsession.1, hsession.2.1, h.inStep.can⟩

theorem active : b.ram.programming.downloadActive = true := by
  rw [h.context]
  exact hs.active

theorem targetSize : b.ram.programming.targetSize = slotSize := by
  rw [h.context]
  exact hs.size

theorem ready : b.ram.flash.ready = true := (h.configured hs).ready

omit hs in
theorem maxBlockLength :
    b.ram.programming.maxBlockLength = b₀.ram.programming.maxBlockLength := by
  rw [h.context]

end Receiving

/-- The next block is taken. -/
theorem completes_transfer {len : Nat} (hs : Started t b₀)
    (hmax : b₀.ram.programming.maxBlockLength = downloadMaxBlockLength) (htail : TailErased img)
    (h : Receiving t img b₀ n b) (hp : Progress b₀ n b) (hlen₀ : 0 < len) (hlen : len ≤ 128)
    (hle : n + len ≤ slotSize) :
    Completes (transfer b.ram.programming.expectedBlockSequenceCounter (block img n len))
      (fun r b' => r = 0 ∧ Receiving t img b₀ (n + len) b' ∧ Progress b₀ (n + len) b' ∧
        b'.ram.programming.expectedBlockSequenceCounter =
          b.ram.programming.expectedBlockSequenceCounter + 1) b := by
  unfold transfer
  rw [Completes.bind_getRam]
  dsimp only
  rw [length_block, h.targetSize hs, hp.received, h.maxBlockLength, hmax]
  refine .ite (fun hno => absurd (h.access hs) hno) fun _ => ?_
  refine .ite (fun hno => absurd hno (by rw [h.active hs]; decide)) fun _ => ?_
  refine .ite (fun hno => absurd rfl hno) fun _ => ?_
  refine .ite (fun hno => absurd hno ?_) fun _ => .ite (fun hno => absurd hno ?_) fun _ => ?_
  · rw [show downloadMaxBlockLength = 130 from rfl]
    omega
  · omega
  refine (completes_transferLoop hs htail h hle).bind ?_
  rintro ok b₁ ⟨rfl, h₁, hu⟩
  refine .ite (fun hno => absurd hno (by decide)) fun _ => ?_
  rw [Completes.bind_setProgramming, Completes.bind_getRam]
  obtain ⟨b₂, hb₂⟩ : ∃ b₂, b₂ = { b₁ with ram := { b₁.ram with programming :=
    { b₁.ram.programming with receivedSize := b₁.ram.programming.receivedSize + len } } } :=
    ⟨_, rfl⟩
  have h₂ : Receiving t img b₀ (n + len) b₂ := by
    rw [hb₂]
    refine ⟨h₁.healthy, ?_, ?_, ⟨h₁.inStep.can, h₁.inStep.current⟩, ⟨h₁.carry.programmed,
      h₁.carry.buffered, h₁.carry.buffer, h₁.carry.staged⟩, h₁.filled⟩
    · dsimp only
      rw [h₁.ram]
    · dsimp only
      rw [h₁.context]
  have hupdate : b₂.ram.update = b.ram.update := by
    rw [hb₂]
    exact hu.update
  have hcounter : b₂.ram.programming.expectedBlockSequenceCounter =
      b.ram.programming.expectedBlockSequenceCounter := by
    rw [hb₂]
    exact hu.counter
  have hreceived : b₂.ram.programming.receivedSize = n + len := by
    rw [hb₂]
    show b₁.ram.programming.receivedSize + len = _
    rw [hu.received, hp.received]
  rw [← hb₂]
  have hrecord := hp.record
  rw [← hupdate] at hrecord
  refine (completes_setProgress hs h₂ (h₂.ready hs) hrecord hreceived hlen hle).bind ?_
  rintro ok b₃ ⟨rfl, h₃, hp₃, hprog⟩
  refine .ite (fun hno => absurd hno (by decide)) fun _ => ?_
  rw [Completes.bind_setProgramming]
  refine .pure ⟨rfl, ⟨h₃.healthy, ?_, ?_, ⟨h₃.inStep.can, h₃.inStep.current⟩,
    ⟨h₃.carry.programmed, h₃.carry.buffered, h₃.carry.buffer, h₃.carry.staged⟩, h₃.filled⟩,
    ⟨hp₃.received, hp₃.record⟩, ?_⟩
  · dsimp only
    rw [h₃.ram]
  · dsimp only
    rw [h₃.context]
  · dsimp only
    rw [hprog, hcounter]

/-- A block out of turn, of no or too great a length, or beyond the end is refused. -/
theorem transfer_rejects {sequence : Byte} {data : List Byte} (hs : Started t b₀)
    (hmax : b₀.ram.programming.maxBlockLength = downloadMaxBlockLength)
    (h : Receiving t img b₀ n b) (hreceived : b.ram.programming.receivedSize = n)
    (hbad : sequence ≠ b.ram.programming.expectedBlockSequenceCounter ∨ data.length = 0 ∨
      128 < data.length ∨ slotSize < n + data.length) :
    ∃ r, r ≠ 0 ∧ transfer sequence data b = .done r b := by
  have hrejects : Completes (transfer sequence data) (fun r b' => r ≠ 0 ∧ b' = b) b := by
    unfold transfer
    rw [Completes.bind_getRam]
    dsimp only
    rw [h.targetSize hs, hreceived, h.maxBlockLength, hmax]
    refine .ite (fun hno => .pure ⟨hno, rfl⟩) fun _ => ?_
    refine .ite (fun _ => .pure ⟨by decide, rfl⟩) fun _ => ?_
    refine .ite (fun _ => .pure ⟨by decide, rfl⟩) fun hseq => ?_
    refine .ite (fun _ => .pure ⟨by decide, rfl⟩) fun hsize => ?_
    refine .ite (fun _ => .pure ⟨by decide, rfl⟩) fun hend => ?_
    -- a block that passes the four checks is the next one
    rw [show downloadMaxBlockLength = 130 from rfl] at hsize
    rcases hbad with hbad | hbad | hbad | hbad
    · exact absurd hbad hseq
    all_goals omega
  obtain ⟨r, b', hrun, hr, rfl⟩ := hrejects.exists_done
  exact ⟨r, hr, hrun⟩

/-- The record `BootUpdate_MarkTransferComplete` saves. -/
def closed (header : BootImageHeader) (sequence : Byte) (r : BootUpdateJournal) :
    BootUpdateJournal :=
  { r with
    cachedHeader := header
    flags := BootJournal.headerKnown
    targetVersion := header.softwareVersion
    expectedCrc := header.imageCrc32
    committedSize := r.expectedSize
    lastBlockSequence := sequence.setWidth 32
    state := BootUpdateState.transferComplete.code }

theorem completes_markTransferComplete {header : BootImageHeader} {sequence : Byte}
    (h : InStep b) (hready : b.ram.flash.ready = true) (hd : b.dev.Healthy)
    (hst : b.ram.update.current.state = BootUpdateState.programming.code) :
    Completes (BootUpdate.markTransferComplete header sequence) (fun ok b' => ok = true ∧
      b'.dev.Healthy ∧ BootUpdate.Logged b (closed header sequence b.ram.update.current) b') b := by
  unfold BootUpdate.markTransferComplete
  rw [Completes.bind_getRam]
  dsimp only
  refine .ite (fun hno => absurd hno (by rw [h.can, hst]; decide)) fun _ => ?_
  exact BootUpdate.completes_save h hready hd
    (h.current.wellFormed.transferComplete hst header sequence)

/-- `BootProgramming_Exit` after the last byte. -/
theorem completes_exit (hs : Started t b₀) (h : Receiving t img b₀ slotSize b)
    (hp : Progress b₀ slotSize b) :
    Completes exit (fun r b' => r = 0 ∧ JournalOnly b.mem b'.mem ∧
      b'.ram.programming.stagedHeader = b.ram.programming.stagedHeader ∧
      BootUpdate.masked b'.ram.update.current = BootUpdate.masked
        { closed b.ram.programming.stagedHeader 0 b.ram.update.current with
          sequence := b.ram.update.current.sequence + 1 }) b := by
  have hst := hp.state hs
  unfold exit
  rw [Completes.bind_getRam]
  dsimp only
  rw [h.active hs, h.targetSize hs, hp.received, h.carry.buffered, h.carry.programmed]
  refine .ite (fun hno => absurd (h.access hs) hno) fun _ => ?_
  refine .ite (fun hno => absurd hno (by decide)) fun _ => ?_
  refine (completes_markTransferComplete h.inStep (h.ready hs) h.healthy hst).bind ?_
  rintro ok b' ⟨rfl, -, hl⟩
  refine .ite (fun hno => absurd hno (by decide)) fun _ => ?_
  rw [Completes.bind_setProgramming]
  obtain ⟨j, hj, hcur⟩ := hl.record
  obtain rfl := hj.unique h.inStep.current
  refine .pure ⟨rfl, hl.only, ?_, ?_⟩
  · dsimp only
    rw [hl.ram]
  · dsimp only
    rw [hcur]
    exact BootUpdate.masked_completed _ h.inStep.current rfl rfl rfl

/-- The blocks of the image sent after a start at `b₀`: `n` bytes have been taken, and `c` is the
    number of the next block.  Blocks that are refused may come in between. -/
inductive Sending (img : Nat → Byte) (b₀ : Board) : Nat → Byte → Board → Prop where
  | start : Sending img b₀ 0 1 b₀
  | block {n len : Nat} {c r : Byte} {b b' : Board} (h : Sending img b₀ n c b) (hlen₀ : 0 < len)
      (hlen : len ≤ 128) (hle : n + len ≤ slotSize)
      (hrun : transfer c (block img n len) b = .done r b') : Sending img b₀ (n + len) (c + 1) b'
  | refused {n : Nat} {c r sequence : Byte} {data : List Byte} {b b' : Board}
      (h : Sending img b₀ n c b) (hbad : sequence ≠ c ∨ data.length = 0 ∨ 128 < data.length ∨
        slotSize < n + data.length) (hrun : transfer sequence data b = .done r b') :
      Sending img b₀ n c b'

/-- Whatever the blocks, the board has received the bytes they carried. -/
theorem Sending.receiving {c : Byte} (h : Sending img b₀ n c b) (hs : Started t b₀)
    (hd : b₀.dev.Healthy) (hmax : b₀.ram.programming.maxBlockLength = downloadMaxBlockLength)
    (htail : TailErased img) :
    Receiving t img b₀ n b ∧ Progress b₀ n b ∧
      b.ram.programming.expectedBlockSequenceCounter = c := by
  induction h with
  | start => exact ⟨.start hs hd, .start hs, hs.counter⟩
  | block h hlen₀ hlen hle hrun ih =>
    obtain ⟨hr, hp, rfl⟩ := ih
    obtain ⟨-, hr', hp', hc⟩ :=
      wp_of_eq_done (completes_transfer hs hmax htail hr hp hlen₀ hlen hle) hrun
    exact ⟨hr', hp', hc⟩
  | refused h hbad hrun ih =>
    obtain ⟨hr, hp, rfl⟩ := ih
    obtain ⟨r, -, hsame⟩ := transfer_rejects hs hmax hr hp.received hbad
    obtain ⟨-, rfl⟩ := Outcome.done.inj (hrun.symm.trans hsame)
    exact ⟨hr, hp, rfl⟩

/-- What is on flash and in RAM after the last byte. -/
structure Delivered (t : Slot) (img : Nat → Byte) (b : Board) : Prop where
  payload : ∀ i, i < headerOffset → b.mem (t.base + i) = img i
  marker : ∀ i, i < flashPhraseSize → b.mem (t.header + i) = 0
  erased : ∀ i, flashPhraseSize ≤ i → i < flashSectorSize → b.mem (t.header + i) = 0xFF
  staged : ∀ i, i < BootImageHeader.size →
    b.ram.programming.stagedHeader.bytes i = img (headerOffset + i)
  exit : ∃ b', BootProgramming.exit b = .done 0 b'

theorem Filled.end {m₀ m : Nat → Byte} (h : Filled t img slotSize m₀ m) (a : Nat)
    (ha : a < journalCopy0Address ∨ metadataSlotACopy0Address ≤ a) :
    m a = place t.base headerOffset img m₀ a := h a ha

theorem Receiving.delivered (hs : Started t b₀) (h : Receiving t img b₀ slotSize b)
    (hp : Progress b₀ slotSize b) : Delivered t img b := by
  have hhdr := t.header_eq
  have hend := t.header_lt_journal
  have hoff : headerOffset = 0x37000 := rfl
  have hss : slotSize = 229376 := rfl
  have hps : flashPhraseSize = 8 := rfl
  have hfs : flashSectorSize = 4096 := rfl
  refine ⟨fun i hi => ?_, fun i hi => ?_, fun i hlo hhi => ?_, fun i hi => ?_, ?_⟩
  · rw [h.filled.end _ (.inl (by omega))]
    exact place_inside hi
  · rw [h.filled.end _ (.inl (by omega)), place_outside (by omega)]
    exact hs.emptied.marker i hi
  · rw [h.filled.end _ (.inl (by omega)), place_outside (by omega)]
    exact hs.emptied.erased _ ⟨by omega, by omega⟩ (by omega)
  · rw [h.carry.staged i hi]
    unfold BootImageHeader.size at hi
    exact if_pos (by omega)
  · obtain ⟨r, b', hrun, rfl, -⟩ := (completes_exit hs h hp).exists_done
    exact ⟨b', hrun⟩

/-- Two boards agree on the flash outside the journal, the staged header, and the journal but for
    the block counted last. -/
structure Alike (b b' : Board) : Prop where
  flash : JournalOnly b.mem b'.mem
  staged : b'.ram.programming.stagedHeader = b.ram.programming.stagedHeader
  journal : BootUpdate.masked b'.ram.update.current = BootUpdate.masked b.ram.update.current

/-- A header is its bytes. -/
theorem header_ext {h h' : BootImageHeader}
    (he : ∀ i, i < BootImageHeader.size → h.bytes i = h'.bytes i) : h = h' := by
  rw [← h.ofBytes_bytes, ← h'.ofBytes_bytes]
  exact BootImageHeader.ofBytes_congr he

theorem Receiving.alike (h : Receiving t img b₀ slotSize b) (h' : Receiving t img b₀ slotSize b')
    (hp : Progress b₀ slotSize b) (hp' : Progress b₀ slotSize b') : Alike b b' := by
  refine ⟨fun a ha => ?_, header_ext fun i hi => ?_, hp'.record.trans hp.record.symm⟩
  · rw [h.filled.end a ha, h'.filled.end a ha]
  · rw [h.carry.staged i hi, h'.carry.staged i hi]

theorem Alike.exits {e e' : Board} (ha : Alike b b') (hs : Started t b₀)
    (h : Receiving t img b₀ slotSize b) (h' : Receiving t img b₀ slotSize b')
    (hp : Progress b₀ slotSize b) (hp' : Progress b₀ slotSize b')
    (he : exit b = .done 0 e) (he' : exit b' = .done 0 e') : Alike e e' := by
  obtain ⟨-, hflash, hstaged, hrecord⟩ := wp_of_eq_done (completes_exit hs h hp) he
  obtain ⟨-, hflash', hstaged', hrecord'⟩ := wp_of_eq_done (completes_exit hs h' hp') he'
  refine ⟨fun a hout => ?_, ?_, ?_⟩
  · rw [hflash' a hout, hflash a hout]
    exact ha.flash a hout
  · rw [hstaged', hstaged]
    exact ha.staged
  · rw [hrecord', hrecord, ha.staged]
    -- what the exit writes over the journal is the same function of what the two journals share
    have hclosed := congrArg (fun r : BootUpdateJournal => BootUpdate.masked
      { closed b.ram.programming.stagedHeader 0 r with sequence := r.sequence + 1 }) ha.journal
    exact hclosed

/-- The transfer is faithful and does not depend on how the image is cut. -/
theorem transfer_fidelity {b₁ b₂ : Board} {address size address' size' : Nat} {img : Nat → Byte}
    (hmax : b.ram.programming.maxBlockLength = downloadMaxBlockLength)
    (herase : erase address size b = .done 0 b₁)
    (hdownload : download address' size' b₁ = .done 0 b₂) (hd : b₂.dev.Healthy)
    (htail : TailErased img) :
    ∃ t : Slot, b₂.ram.programming.targetSlot = some t ∧
      (∀ n c b', Sending img b₂ n c b' →
        (∀ len, 0 < len → len ≤ 128 → n + len ≤ slotSize →
          ∃ b'', transfer c (block img n len) b' = .done 0 b'') ∧
        (∀ sequence data, (sequence ≠ c ∨ data.length = 0 ∨ 128 < data.length ∨
          slotSize < n + data.length) → ∃ r, r ≠ 0 ∧ transfer sequence data b' = .done r b') ∧
        b'.ram.programming.receivedSize = n ∧
        b'.ram.programming.receivedSize =
          b'.ram.programming.programmedSize + b'.ram.programming.bufferedSize ∧
        b'.ram.programming.bufferedSize < 8 ∧ b'.ram.programming.programmedSize % 8 = 0 ∧
        (n = slotSize → Delivered t img b')) ∧
      ∀ c b' c' b'', Sending img b₂ slotSize c b' → Sending img b₂ slotSize c' b'' →
        Alike b' b'' ∧ ∀ e e', exit b' = .done 0 e → exit b'' = .done 0 e' → Alike e e' := by
  obtain ⟨t, -, hopened, hmax₁⟩ := ensures_erase_prepared.of_done herase rfl
  obtain ⟨hs, hmax₂⟩ := (ensures_download_started hopened.toOpened).of_done hdownload rfl
  have hmax' : b₂.ram.programming.maxBlockLength = downloadMaxBlockLength := by
    rw [hmax₂, hmax₁, hmax]
  refine ⟨t, hs.target, fun n c b' hsend => ?_, fun c b' c' b'' hsend hsend' => ?_⟩
  · obtain ⟨hr, hp, rfl⟩ := hsend.receiving hs hd hmax' htail
    refine ⟨fun len hlen₀ hlen hle => ?_, fun sequence data hbad => ?_, hp.received, ?_, ?_, ?_, ?_⟩
    · obtain ⟨r, b'', hrun, rfl, -⟩ :=
        (completes_transfer hs hmax' htail hr hp hlen₀ hlen hle).exists_done
      exact ⟨b'', hrun⟩
    · exact transfer_rejects hs hmax' hr hp.received hbad
    · rw [hp.received, hr.carry.programmed, hr.carry.buffered]
      omega
    · rw [hr.carry.buffered]
      exact Nat.mod_lt n (by decide)
    · rw [hr.carry.programmed]
      exact Nat.mul_mod_left _ _
    · rintro rfl
      exact hr.delivered hs hp
  · obtain ⟨hr, hp, -⟩ := hsend.receiving hs hd hmax' htail
    obtain ⟨hr', hp', -⟩ := hsend'.receiving hs hd hmax' htail
    have ha := hr.alike hr' hp hp'
    exact ⟨ha, fun e e' he he' => ha.exits hs hr hr' hp hp' he he'⟩

/-- A blank device commissioned without an image, with an unlocked tester. -/
theorem erasable_blank : ∃ b, Erasable .a b ∧
    b.ram.programming.maxBlockLength = downloadMaxBlockLength := by
  obtain ⟨b, hb⟩ : ∃ b, b = Board.blank := ⟨_, rfl⟩
  have hempty : BootJournal.loadLatest b.mem = .empty := by
    rw [hb]
    exact BootJournal.recordFormat.load_blank fun _ _ _ => rfl
  have hallowed : BootUpdate.commissionAllowed b.mem none = true := by
    rw [hb]
    decide +kernel
  have hhealthy : b.dev.Healthy := by
    rw [hb]
    constructor <;> intro n hn <;> cases hn
  have hready : b.ram.flash.ready = true := by rw [hb]; rfl
  obtain ⟨ok, b₁, -, -, hd, hin, -, hboard⟩ :=
    (BootUpdate.completes_initializeJournal hready hhealthy hempty hallowed).exists_done
  have hram : b₁.ram = { Board.blank.ram with update :=
      ⟨BootJournal.completed 1 (BootUpdate.commissionRecord none), true, false, false⟩ } := by
    rw [hboard, hb]
    rfl
  have hhw : b₁.hw.transmits = [] := by
    rw [hboard, hb]
    rfl
  -- a boot finds the metadata empty
  refine ⟨{ b₁ with ram := { b₁.ram with
    lifecycle := { b₁.ram.lifecycle with metadataStatus := fun _ => .empty }
    programming := { initial b₁.ram.programming none 0 with
      sessionActive := true, securityUnlocked := true } } }, ⟨⟨hin.can, hin.current⟩, hd, ?_, ?_, rfl,
    rfl, rfl, rfl, ?_, ?_, ?_⟩, rfl⟩
  · show ∀ ok ∈ b₁.hw.transmits, ok = true
    rw [hhw]
    exact fun ok hok => by cases hok
  · show b₁.ram.flash.ready = true
    rw [hram]
    rfl
  · show (none : SlotId) ≠ some .a
    decide
  · show BootLifecycle.canStartUpdate
      { b₁.ram.lifecycle with metadataStatus := fun _ => .empty } none (some .a) = true
    rw [hram]
    decide
  · show BootUpdate.beginAllowed b₁.ram.update none (some .a) slotSize = true
    rw [hram]
    decide

/-- An image that counts its bytes up to the header sector. -/
def countingImage (i : Nat) : Byte := if i < headerOffset then BitVec.ofNat 8 i else 0xFF

/-- It arrives in slot A. -/
theorem transfer_fidelity_blank : ∃ b b₁ b₂ b₃,
    erase slotABaseAddress slotSize b = .done 0 b₁ ∧
    download slotABaseAddress slotSize b₁ = .done 0 b₂ ∧
    transfer 1 (block countingImage 0 128) b₂ = .done 0 b₃ := by
  obtain ⟨b, he, hmax⟩ := erasable_blank
  obtain ⟨r, b₁, herase, rfl, hd₁, hr₁⟩ := (completes_erase he).exists_done
  obtain ⟨t, haddress, hp, -⟩ := ensures_erase_prepared.of_done herase rfl
  obtain rfl : t = .a := by
    revert haddress
    cases t <;> decide
  obtain ⟨r, b₂, hdownload, rfl, hd₂, -⟩ := (completes_download hp hd₁ hr₁).exists_done
  have htail : TailErased countingImage := by
    intro i hi _
    exact if_neg (by unfold BootImageHeader.size at hi; omega)
  obtain ⟨t, -, hall, -⟩ := transfer_fidelity hmax herase hdownload hd₂ htail
  obtain ⟨b₃, htransfer⟩ := (hall 0 1 b₂ .start).1 128 (by decide) (by decide) (by decide)
  exact ⟨b, b₁, b₂, b₃, herase, hdownload, htransfer⟩

end BootProgramming
