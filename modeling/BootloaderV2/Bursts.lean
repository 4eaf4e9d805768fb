import BootloaderV2.Commission
import BootloaderV2.Coverage
import BootloaderV2.Lib.Crc

/-!
# Damaged records

The register of the checksum is four bytes wide, and a stored checksum that is right brings it to a
fixed value.  So a record that is damaged in four bytes in a row, wherever they lie, is rejected:
behind the checksum there is only the commit marker, which is a constant.
-/

open BootConfig NorFlash CrashM TwoCopy

/-- The records differ, and only in four bytes in a row. -/
structure Burst (size : Nat) (b b' : Nat → Byte) : Prop where
  window : ∃ p, ∀ i, i < size → ¬ (p ≤ i ∧ i < p + 4) → b i = b' i
  differs : ∃ i, i < size ∧ b i ≠ b' i

namespace BootCrc32

/-! ## The checksum as a check on bits -/

def polynomial : Word := 0xEDB88320

/-- The bits of a block in the order the loop takes them. -/
def bitsOf (data : Nat → Byte) (i : Nat) : Bool := (data (i / 8)).getLsbD (i % 8)

theorem shift_eq (c : Word) : shift c = Crc.shift polynomial c := by
  have hlow : c &&& 1 = (BitVec.ofBool (c.getLsbD 0)).setWidth 32 :=
    BitVec.and_one_eq_setWidth_ofBool_getLsbD
  unfold shift Crc.shift
  rw [hlow]
  cases c.getLsbD 0 <;> rfl

theorem block_byte (data : Nat → Byte) (n : Nat) :
    Crc.block (bitsOf data) (8 * n) 8 = (data n).setWidth 32 := by
  apply BitVec.eq_of_getLsbD_eq
  intro i _
  rw [Crc.getLsbD_block _ _ (by decide), BitVec.getLsbD_setWidth]
  by_cases hi : i < 8
  · have hn : (8 * n + i) / 8 = n := by omega
    have hm : (8 * n + i) % 8 = i := by omega
    unfold bitsOf
    rw [hn, hm, decide_eq_true hi, decide_eq_true (show i < 32 by omega)]
  · rw [decide_eq_false hi, BitVec.getLsbD_of_ge _ i (by omega), Bool.and_false, Bool.false_and]

theorem block_word (data : Nat → Byte) (k : Nat) :
    Crc.block (bitsOf data) (8 * (4 * k)) 32 = Words.wordOf data k := by
  apply BitVec.eq_of_getLsbD_eq
  intro i hi
  have hbyte := congrArg (fun b : Byte => b.getLsbD (i % 8))
    (Words.byteOf_wordOf data (4 * k + i / 8))
  unfold Words.byteOf at hbyte
  rw [show (4 * k + i / 8) / 4 = k by omega] at hbyte
  simp only [BitVec.getLsbD_extractLsb'] at hbyte
  rw [Crc.getLsbD_block _ _ (Nat.le_refl 32), decide_eq_true hi]
  unfold bitsOf
  rw [show (8 * (4 * k) + i) / 8 = 4 * k + i / 8 by omega,
    show (8 * (4 * k) + i) % 8 = i % 8 by omega, ← hbyte,
    show 8 * ((4 * k + i / 8) % 4) + i % 8 = i by omega,
    decide_eq_true (show i % 8 < 8 by omega), Bool.true_and, Bool.true_and]

/-- The bytes go into the register bit by bit. -/
theorem register_eq (data : Nat → Byte) (n : Nat) :
    register data n = Crc.register polynomial 0xFFFFFFFF (bitsOf data) (8 * n) := by
  induction n with
  | zero => rfl
  | succ n ih =>
    rw [show 8 * (n + 1) = 8 * n + 8 by omega, Crc.register_block _ _ _ (by decide), block_byte,
      ← ih, register, update, Crc.shifts, funext shift_eq]

/-- What a right checksum leaves in the register. -/
def residue : Word := Crc.shifts polynomial 32 0xFFFFFFFF

/-- The word behind the data is their checksum. -/
theorem calculate_iff {data : Nat → Byte} {k : Nat} :
    Words.wordOf data k = calculate data (4 * k) ↔ register data (4 * (k + 1)) = residue := by
  rw [register_eq, show 8 * (4 * (k + 1)) = 8 * (4 * k) + 32 by omega, residue,
    Crc.register_residue (by decide), block_word, calculate, register_eq]

/-- Of two blocks with their checksums behind them that differ in four bytes in a row at most, one
    is the other. -/
theorem eq_of_calculate {data data' : Nat → Byte} {k p : Nat}
    (h : Words.wordOf data k = calculate data (4 * k))
    (h' : Words.wordOf data' k = calculate data' (4 * k))
    (hout : ∀ i, i < 4 * (k + 1) → ¬ (p ≤ i ∧ i < p + 4) → data i = data' i) :
    ∀ i, i < 4 * (k + 1) → data i = data' i := by
  have hregister : register data (4 * (k + 1)) = register data' (4 * (k + 1)) :=
    (calculate_iff.1 h).trans (calculate_iff.1 h').symm
  rw [register_eq, register_eq] at hregister
  have hbits : ∀ i, i < 8 * (4 * (k + 1)) → bitsOf data i = bitsOf data' i := by
    apply Crc.eq_of_register (n := 8 * p) (by decide) _ hregister
    intro i hi hwindow
    unfold bitsOf
    rw [hout (i / 8) (by omega) (by omega)]
  intro i hi
  apply BitVec.eq_of_getLsbD_eq
  intro j hj
  have hbit := hbits (8 * i + j) (by omega)
  unfold bitsOf at hbit
  rw [show (8 * i + j) / 8 = i by omega, show (8 * i + j) % 8 = j by omega] at hbit
  exact hbit

end BootCrc32

/-! ## The three records -/

/-- A block that ends in a checksum and a constant word. -/
theorem eq_of_marked {b b' : Nat → Byte} {k : Nat} {marker : Word}
    (hcrc : Words.wordOf b k = BootCrc32.calculate b (4 * k))
    (hcrc' : Words.wordOf b' k = BootCrc32.calculate b' (4 * k))
    (hmarker : Words.wordOf b (k + 1) = marker) (hmarker' : Words.wordOf b' (k + 1) = marker)
    (hout : ∃ p, ∀ i, i < 4 * (k + 2) → ¬ (p ≤ i ∧ i < p + 4) → b i = b' i) :
    ∀ i, i < 4 * (k + 2) → b i = b' i := by
  obtain ⟨p, hp⟩ := hout
  have hchecked := BootCrc32.eq_of_calculate hcrc hcrc' fun i hi => hp i (by omega)
  intro i hi
  by_cases hin : i < 4 * (k + 1)
  · exact hchecked i hin
  · -- the byte is one of the marker's
    have hdiv : i / 4 = k + 1 := by omega
    have hb := Words.byteOf_wordOf b i
    have hb' := Words.byteOf_wordOf b' i
    unfold Words.byteOf at hb hb'
    rw [hdiv, hmarker] at hb
    rw [hdiv, hmarker'] at hb'
    exact hb.symm.trans hb'

theorem BootJournal.checked {b : Nat → Byte} (h : validate (.ofBytes b) = true) :
    Words.wordOf b 30 = BootCrc32.calculate b (4 * 30) ∧ Words.wordOf b 31 = commitMarker := by
  have hmarker := validate_marker h
  unfold validate at h
  split at h
  · cases h
  rename_i hn
  push Not at hn
  have hcrc := hn.2.2.2.1
  have hbytes : ∀ i, i < crcOffset → BootUpdateJournal.bytes (.ofBytes b) i = b i :=
    fun i hi => BootUpdateJournal.bytes_ofBytes b (Nat.lt_of_lt_of_le hi (by decide))
  rw [crc_eq_calculate, BootCrc32.calculate_congr hbytes] at hcrc
  exact ⟨hcrc, hmarker⟩

theorem BootMetadata.checked {s : Slot} {b : Nat → Byte} (h : validate s (.ofBytes b) = true) :
    Words.wordOf b 18 = BootCrc32.calculate b (4 * 18) ∧ Words.wordOf b 19 = commitMarker := by
  have hmarker := validate_marker h
  simp only [validate, Bool.and_eq_true, beq_iff_eq] at h
  have hcrc := h.2
  have hbytes : ∀ i, i < crcOffset → BootSlotMetadata.bytes (.ofBytes b) i = b i :=
    fun i hi => BootSlotMetadata.bytes_ofBytes b (Nat.lt_of_lt_of_le hi (by decide))
  rw [BootCrc32.calculate_congr hbytes] at hcrc
  exact ⟨hcrc, hmarker⟩

theorem BootImage.checked {s : Slot} {b : Nat → Byte}
    (h : validateHeader (some s) (.ofBytes b) = .valid) :
    Words.wordOf b 15 = BootCrc32.calculate b (4 * 15) := by
  have hcrc := (validateHeader_iff.1 h).crc
  have hbytes : ∀ i, i < headerCrcLength → BootImageHeader.bytes (.ofBytes b) i = b i :=
    fun i hi => BootImageHeader.bytes_ofBytes b (Nat.lt_of_lt_of_le hi (by decide))
  rw [BootCrc32.calculate_congr hbytes] at hcrc
  exact hcrc.symm

theorem BootJournal.validate_of_burst {b b' : Nat → Byte} (h : validate (.ofBytes b) = true)
    (hburst : Burst BootUpdateJournal.size b b') : validate (.ofBytes b') = false := by
  by_contra hv
  obtain ⟨hcrc, hmarker⟩ := checked h
  obtain ⟨hcrc', hmarker'⟩ := checked (Bool.not_eq_false _ ▸ hv)
  obtain ⟨i, hi, hne⟩ := hburst.differs
  exact hne (eq_of_marked hcrc hcrc' hmarker hmarker' hburst.window i hi)

theorem BootMetadata.validate_of_burst {s : Slot} {b b' : Nat → Byte}
    (h : validate s (.ofBytes b) = true) (hburst : Burst BootSlotMetadata.size b b') :
    validate s (.ofBytes b') = false := by
  by_contra hv
  obtain ⟨hcrc, hmarker⟩ := checked h
  obtain ⟨hcrc', hmarker'⟩ := checked (Bool.not_eq_false _ ▸ hv)
  obtain ⟨i, hi, hne⟩ := hburst.differs
  exact hne (eq_of_marked hcrc hcrc' hmarker hmarker' hburst.window i hi)

theorem BootImage.validateHeader_of_burst {s s' : Slot} {b b' : Nat → Byte}
    (h : validateHeader (some s) (.ofBytes b) = .valid)
    (hburst : Burst BootImageHeader.size b b') :
    validateHeader (some s') (.ofBytes b') ≠ .valid := by
  intro hv
  obtain ⟨p, hp⟩ := hburst.window
  obtain ⟨i, hi, hne⟩ := hburst.differs
  exact hne (BootCrc32.eq_of_calculate (checked h) (checked hv) hp i hi)

/-! ## The two copies -/

namespace TwoCopy.Format

variable {R : Type} {F : Format R}

/-- Where a burst is always noticed, a burst in the current copy leaves the store with the record of
    the other copy, or with none. -/
theorem load_of_burst {c c' : Fin 2 → Nat → Byte} {k : Fin 2} {r : R}
    (hreject : ∀ b b' : Nat → Byte, F.valid (F.decode b) = true → Burst F.size b b' →
      F.valid (F.decode b') = false)
    (hfirst : ∀ b : Nat → Byte, F.valid (F.decode b) = true → b 0 ≠ 0xFF) (hsize : 4 < F.size)
    (h : F.load c = .valid k r) (hburst : Burst F.size (c k) (c' k)) (ho : F.SameOther k c c') :
    F.load c' = .only (1 - k) (F.copy (c (1 - k))) := by
  obtain ⟨hv, hdecode⟩ := F.copy_eq_some.1 (F.copy_of_load h)
  rw [← hdecode] at hv
  have hnone : F.copy (c' k) = none := F.copy_eq_none.2 (hreject _ _ hv hburst)
  have herased : F.erased (c' k) = false := by
    -- the first and the last byte are not both in the window
    obtain ⟨p, hp⟩ := hburst.window
    unfold erased
    rw [decide_eq_false_iff_not]
    intro hall
    by_cases hp0 : p ≤ 0
    · have hlast := hp (F.size - 1) (by omega) (by omega)
      rw [hall _ (by omega)] at hlast
      apply F.encode_last _ hv
      rw [F.encode_decode _ _ (by omega), hlast]
    · have h0 := hp 0 (by omega) (by omega)
      rw [hall 0 (by omega)] at h0
      exact hfirst _ hv h0
  rw [load_damaged hnone herased, F.copy_congr ho]

end TwoCopy.Format

/-- The memories differ in four bytes in a row of the record at `base`; what lies behind the record
    in its sector does not matter. -/
structure Damaged (base size : Nat) (mem mem' : Nat → Byte) : Prop where
  burst : Burst size (fun i => mem (base + i)) fun i => mem' (base + i)
  outside : ∀ a, a < base ∨ base + flashSectorSize ≤ a → mem' a = mem a

namespace BootJournal

theorem first_of_validate {b : Nat → Byte} (h : validate (.ofBytes b) = true) : b 0 ≠ 0xFF := by
  have hmagic : Words.wordOf b 0 = magic := by
    unfold validate at h
    split at h
    · cases h
    rename_i hn
    push Not at hn
    exact hn.1
  rw [← Words.wordOf_low b 0, hmagic]
  decide

theorem loadLatest_of_damaged {k : Fin 2} {r : BootUpdateJournal} {mem mem' : Nat → Byte}
    (h : loadLatest mem = .valid k r)
    (hd : Damaged (FlashDriver.journalAddress k) journalRecordSize mem mem') :
    loadLatest mem' = .only (1 - k) (recordFormat.copy (copies mem (1 - k))) := by
  have hburst : Burst recordFormat.size (copies mem k) (copies mem' k) := hd.burst
  refine recordFormat.load_of_burst (fun _ _ => validate_of_burst) (fun _ => first_of_validate)
    (by decide) h hburst ?_
  intro i hi
  have hi' : i < journalRecordSize := hi
  apply hd.outside
  unfold journalRecordSize at hi'
  rcases eq_zero_or_one k with rfl | rfl
  · exact .inr (by simp [FlashDriver.journalAddress])
  · left
    simp [FlashDriver.journalAddress, flashSectorSize]
    omega

end BootJournal

namespace BootMetadata

theorem first_of_validate {s : Slot} {b : Nat → Byte} (h : validate s (.ofBytes b) = true) :
    b 0 ≠ 0xFF := by
  have hmagic : Words.wordOf b 0 = magic := by
    simp only [validate, Bool.and_eq_true, beq_iff_eq] at h
    simp_all [BootSlotMetadata.ofBytes, BootSlotMetadata.ofWords]
  rw [← Words.wordOf_low b 0, hmagic]
  decide

theorem load_of_damaged {s : Slot} {k : Fin 2} {r : BootSlotMetadata} {mem mem' : Nat → Byte}
    (h : load s mem = .valid k r)
    (hd : Damaged (FlashDriver.metadataAddress s k) metadataRecordSize mem mem') :
    load s mem' = .only (1 - k) ((recordFormat s).copy (copies s mem (1 - k))) := by
  have hsize : 4 < metadataRecordSize := by decide
  have hburst : Burst (recordFormat s).size (copies s mem k) (copies s mem' k) := hd.burst
  refine (recordFormat s).load_of_burst (fun _ _ => validate_of_burst) (fun _ => first_of_validate)
    hsize h hburst ?_
  intro i hi
  have hi' : i < metadataRecordSize := hi
  apply hd.outside
  unfold metadataRecordSize at hi'
  rcases eq_zero_or_one k with rfl | rfl
  · right
    cases s <;> simp [FlashDriver.metadataAddress, FlashDriver.slotIndex, flashSectorSize]
  · left
    cases s <;> simp [FlashDriver.metadataAddress, FlashDriver.slotIndex, flashSectorSize] <;> omega

end BootMetadata

/-- Every record that differs from a valid one in four bytes in a row is rejected.  Where that
    happens to the current copy of a store, the store holds the record of the other copy if that one
    is valid, and is invalid if not. -/
theorem Burst.detected :
    (∀ b b' : Nat → Byte, BootJournal.validate (.ofBytes b) = true →
      Burst BootUpdateJournal.size b b' → BootJournal.validate (.ofBytes b') = false) ∧
    (∀ (s : Slot) (b b' : Nat → Byte), BootMetadata.validate s (.ofBytes b) = true →
      Burst BootSlotMetadata.size b b' → BootMetadata.validate s (.ofBytes b') = false) ∧
    (∀ (s s' : Slot) (b b' : Nat → Byte), BootImage.validateHeader (some s) (.ofBytes b) = .valid →
      Burst BootImageHeader.size b b' →
      BootImage.validateHeader (some s') (.ofBytes b') ≠ .valid) ∧
    (∀ (k : Fin 2) (r : BootUpdateJournal) (mem mem' : Nat → Byte),
      BootJournal.loadLatest mem = .valid k r →
      Damaged (FlashDriver.journalAddress k) journalRecordSize mem mem' →
      BootJournal.loadLatest mem' =
        .only (1 - k) (BootJournal.recordFormat.copy (BootJournal.copies mem (1 - k)))) ∧
    ∀ (s : Slot) (k : Fin 2) (r : BootSlotMetadata) (mem mem' : Nat → Byte),
      BootMetadata.load s mem = .valid k r →
      Damaged (FlashDriver.metadataAddress s k) metadataRecordSize mem mem' →
      BootMetadata.load s mem' =
        .only (1 - k) ((BootMetadata.recordFormat s).copy (BootMetadata.copies s mem (1 - k))) :=
  ⟨fun _ _ => BootJournal.validate_of_burst, fun _ _ _ => BootMetadata.validate_of_burst,
    fun _ _ _ _ => BootImage.validateHeader_of_burst,
    fun _ _ _ _ => BootJournal.loadLatest_of_damaged, fun _ _ _ _ _ => BootMetadata.load_of_damaged⟩

/-- A valid record in copy 0 of a journal that is erased otherwise loses a byte. -/
theorem BootJournal.invalid_of_damaged {r : BootUpdateJournal} (hv : validate r = true) {i : Nat}
    (hi : i < journalRecordSize) {x : Byte} (hx : r.bytes i ≠ x) {mem mem' : Nat → Byte}
    (hmem : mem = place (FlashDriver.journalAddress 0) journalRecordSize r.bytes fun _ => 0xFF)
    (hmem' : mem' = place (FlashDriver.journalAddress 0 + i) 1 (fun _ => x) mem) :
    loadLatest mem = .valid 0 r ∧
      Damaged (FlashDriver.journalAddress 0) journalRecordSize mem mem' ∧
      recordFormat.copy (copies mem (1 - 0)) = none := by
  have hin : ∀ j, j < journalRecordSize → mem (FlashDriver.journalAddress 0 + j) = r.bytes j := by
    intro j hj
    rw [hmem, place_inside hj]
  have hother : recordFormat.copy (copies mem (1 - 0)) = none := by
    apply Format.copy_torn
    rw [hmem]
    unfold copies
    rw [place_outside (.inr (by decide))]
  refine ⟨Format.load_of_single _ (Format.copy_encode _ hv hin) hother, ⟨⟨⟨i, ?_⟩, i, hi, ?_⟩, ?_⟩,
    hother⟩
  · intro j _ hj
    show mem _ = mem' _
    rw [hmem', place_outside (by omega)]
  · show mem _ ≠ mem' _
    rw [hin i hi, hmem', ← Nat.add_zero (FlashDriver.journalAddress 0 + i), place_inside Nat.one_pos]
    exact hx
  · intro a ha
    rw [hmem', place_outside]
    unfold flashSectorSize at ha
    unfold journalRecordSize at hi
    omega

/-- The only copy of a journal that has just been commissioned loses the first byte of its format:
    the journal is invalid. -/
theorem Burst.detected_commissioned : ∃ (mem mem' : Nat → Byte) (r : BootUpdateJournal),
    BootJournal.loadLatest mem = .valid 0 r ∧
    Damaged (FlashDriver.journalAddress 0) journalRecordSize mem mem' ∧
    BootJournal.loadLatest mem' = .invalid := by
  have hv := BootJournal.validate_completed 1 (BootUpdate.wellFormed_commissionRecord (some .a))
  obtain ⟨hload, hdamaged, hother⟩ := BootJournal.invalid_of_damaged hv (i := 4) (by decide)
    (x := 0) (by decide) rfl rfl
  refine ⟨_, _, _, hload, hdamaged, ?_⟩
  rw [detected.2.2.2.1 _ _ _ _ hload hdamaged, hother]
  rfl
