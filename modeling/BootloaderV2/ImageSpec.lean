import BootloaderV2.Image
import BootloaderV2.Lib.NorFlash

/-!
# What image validation depends on

The payload checks read the slot below its header sector, the header check reads the header, and a
legacy image of slot A is described by the words at `metadataAddress`.  Nothing else of the flash
matters.
-/

open BootConfig NorFlash

namespace BootVersion

/-- One of the four parts of a version. -/
theorem part_toNat (v : Word) (k : Nat) :
    ((v >>> k) &&& 0xFF).toNat = v.toNat / 2 ^ k % 256 := by
  rw [BitVec.toNat_and, BitVec.toNat_ushiftRight, Nat.shiftRight_eq_div_pow]
  exact Nat.and_two_pow_sub_one_eq_mod _ 8

/-- The comparison part by part is the comparison of the words. -/
theorem compare_eq (left right : Word) : compare left right =
    if left < right then .less else if right < left then .greater else .equal := by
  have hl := left.isLt
  have hr := right.isLt
  simp only [compare, compareFrom, BitVec.lt_def, part_toNat]
  simp only [Nat.reducePow, Nat.div_one] at *
  generalize left.toNat = l at *
  generalize right.toNat = r at *
  -- the highest part that differs decides, on either side
  split_ifs <;> first | rfl | omega
end BootVersion

theorem readWord_congr {m m' : Nat → Byte} {address : Nat}
    (h : ∀ a, address ≤ a → a < address + 4 → m a = m' a) :
    readWord m address = readWord m' address :=
  Words.wordOf_congr fun i _ hi => h _ (by omega) (by omega)

/-- The words that describe a legacy image are the same. -/
def SameLegacy (m m' : Nat → Byte) : Prop :=
  ∀ a, metadataAddress ≤ a → a < metadataAddress + 24 → m a = m' a

theorem BootFirmware.readMetadata_congr {m m' : Nat → Byte} (h : SameLegacy m m') :
    BootFirmware.readMetadata m = BootFirmware.readMetadata m' := by
  have hread : ∀ k, k < 6 → readWord m (metadataAddress + 4 * k) =
      readWord m' (metadataAddress + 4 * k) :=
    fun k hk => readWord_congr fun a ha ha' => h a (by omega) (by omega)
  simp only [BootFirmware.readMetadata, BootFirmwareMetadata.mk.injEq]
  exact ⟨hread 0 (by decide), hread 1 (by decide), hread 2 (by decide), hread 3 (by decide),
    hread 4 (by decide), hread 5 (by decide)⟩

namespace Slot

def base (s : Slot) : Nat := BootSlot.getBaseAddress (some s)

def header (s : Slot) : Nat := BootSlot.getHeaderAddress (some s)

/-- The address lies in the slot. -/
def Contains (s : Slot) (a : Nat) : Prop := s.base ≤ a ∧ a < s.base + slotSize

/-- The slots below their header sectors are the same. -/
def SamePayload (s : Slot) (m m' : Nat → Byte) : Prop :=
  ∀ a, s.base ≤ a → a < s.header → m a = m' a

/-- The slots are the same. -/
def Same (s : Slot) (m m' : Nat → Byte) : Prop := ∀ a, s.Contains a → m a = m' a

theorem header_eq (s : Slot) : s.header = s.base + 0x37000 := by cases s <;> rfl

theorem Same.payload {s : Slot} {m m' : Nat → Byte} (h : s.Same m m') : s.SamePayload m m' := by
  intro a ha ha'
  have := s.header_eq
  exact h a ⟨ha, by unfold slotSize; omega⟩

end Slot

namespace BootImage

theorem validate_header (mem : Nat → Byte) (slot : SlotId) (info : BootImageInfo) :
    (validate mem slot info).header = info.header := by
  unfold validate
  split <;> rfl

theorem validate_result (mem : Nat → Byte) (slot : SlotId) (info : BootImageInfo) :
    (validate mem slot info).validationResult =
      if validateHeader slot info.header = .valid then (validatePayload mem slot info.header).1
      else validateHeader slot info.header := by
  unfold validate
  split
  · rename_i h
    rw [h]
    rfl
  · rename_i r hr
    rw [if_neg hr]

theorem validate_valid (mem : Nat → Byte) (slot : SlotId) (info : BootImageInfo) :
    (validate mem slot info).valid = ((validate mem slot info).validationResult == .valid) := by
  unfold validate
  split <;> rfl

theorem validateHeader_not_erased {slot : SlotId} {h : BootImageHeader}
    (hv : validateHeader slot h = .valid) : headerIsErased h = false := by
  unfold validateHeader at hv
  split at hv
  · cases hv
  · split at hv
    · cases hv
    · split at hv
      · cases hv
      · rename_i he
        rw [Bool.or_eq_true, not_or] at he
        simpa using he.1

/-- The part of validation that reads the payload. -/
theorem validatePayload_congr {m m' : Nat → Byte} {s : Slot} {h : BootImageHeader}
    (hsame : s.SamePayload m m') :
    validatePayload m (some s) h = validatePayload m' (some s) h := by
  obtain ⟨d, hd, hbase, hend⟩ : ∃ d, BootSlot.getDescriptor (some s) = some d ∧
      d.vectorAddress = s.base ∧ d.payloadEndAddress = s.header := by
    cases s <;> exact ⟨_, rfl, rfl, rfl⟩
  have hhdr := s.header_eq
  unfold validatePayload
  rw [hd]
  dsimp only
  split
  · rfl
  · rename_i hguard
    push Not at hguard
    obtain ⟨-, hsize, hvec, -⟩ := hguard
    rw [hend, hbase] at hsize
    rw [hbase] at hvec
    have hword : ∀ k, k < 2 → readWord m (h.vectorAddress.toNat + 4 * k) =
        readWord m' (h.vectorAddress.toNat + 4 * k) :=
      fun k hk => readWord_congr fun a ha ha' => hsame a (by omega) (by omega)
    have h0 := hword 0 (by decide)
    have h1 := hword 1 (by decide)
    rw [Nat.mul_zero, Nat.add_zero] at h0
    rw [Nat.mul_one] at h1
    have hcrc : BootCrc32.calculate (fun i => m (h.vectorAddress.toNat + i)) h.imageSize.toNat =
        BootCrc32.calculate (fun i => m' (h.vectorAddress.toNat + i)) h.imageSize.toNat :=
      BootCrc32.calculate_congr fun i hi => hsame _ (by omega) (by omega)
    rw [h0, h1, hcrc]

theorem validate_congr {m m' : Nat → Byte} {s : Slot} {info : BootImageInfo}
    (hsame : s.SamePayload m m') : validate m (some s) info = validate m' (some s) info := by
  unfold validate
  rw [validatePayload_congr hsame]

theorem bootIsApplicationValid_congr {m m' : Nat → Byte} (hleg : SameLegacy m m')
    (hsame : Slot.a.SamePayload m m')
    (hsize : (BootFirmware.readMetadata m).firmwareSize.toNat ≤ 0x37000) :
    bootIsApplicationValid m = bootIsApplicationValid m' := by
  have hbase : Slot.a.base = 0x8000 := rfl
  have hhdr : Slot.a.header = 0x3F000 := rfl
  have hmeta := BootFirmware.readMetadata_congr hleg
  have hword : ∀ k, k < 2 → readWord m (appStartAddress + 4 * k) =
      readWord m' (appStartAddress + 4 * k) :=
    fun k hk => readWord_congr fun a ha ha' => hsame a (by unfold appStartAddress at ha; omega)
      (by unfold appStartAddress at ha'; omega)
  have h0 := hword 0 (by decide)
  have h1 := hword 1 (by decide)
  rw [Nat.mul_zero, Nat.add_zero] at h0
  rw [Nat.mul_one] at h1
  have hcrc : BootCrc32.calculate (fun i => m (appStartAddress + i))
        (BootFirmware.readMetadata m).firmwareSize.toNat =
      BootCrc32.calculate (fun i => m' (appStartAddress + i))
        (BootFirmware.readMetadata m).firmwareSize.toNat :=
    BootCrc32.calculate_congr fun i hi => hsame _ (by unfold appStartAddress; omega)
      (by unfold appStartAddress; omega)
  unfold bootIsApplicationValid
  dsimp only
  rw [hcrc, hmeta, h0, h1]

theorem loadLegacySlotA_congr {m m' : Nat → Byte} {info : BootImageInfo} (hleg : SameLegacy m m')
    (hsame : Slot.a.SamePayload m m') : loadLegacySlotA m info = loadLegacySlotA m' info := by
  have hbase : Slot.a.base = 0x8000 := rfl
  have hhdr : Slot.a.header = 0x3F000 := rfl
  have hmeta := BootFirmware.readMetadata_congr hleg
  have hword : ∀ k, k < 2 → readWord m (slotABaseAddress + 4 * k) =
      readWord m' (slotABaseAddress + 4 * k) :=
    fun k hk => readWord_congr fun a ha ha' => hsame a (by unfold slotABaseAddress at ha; omega)
      (by unfold slotABaseAddress at ha'; omega)
  have h0 := hword 0 (by decide)
  have h1 := hword 1 (by decide)
  rw [Nat.mul_zero, Nat.add_zero] at h0
  rw [Nat.mul_one] at h1
  unfold loadLegacySlotA
  dsimp only
  rw [hmeta, h0, h1]
  split
  · rfl
  · rename_i hsize
    have hsize' : (BootFirmware.readMetadata m).firmwareSize.toNat ≤ 0x37000 := by
      rw [hmeta]
      simp only [Bool.or_eq_true, not_or, decide_eq_true_eq, not_lt] at hsize
      exact hsize.2
    rw [bootIsApplicationValid_congr hleg hsame hsize']

theorem readHeader_congr {m m' : Nat → Byte} {s : Slot} {d : BootSlot.Descriptor}
    (hd : BootSlot.getDescriptor (some s) = some d) (hsame : s.Same m m') :
    readHeader m d = readHeader m' d := by
  refine BootImageHeader.ofBytes_congr fun i hi => hsame _ ?_
  have hh : d.headerAddress = s.header := by cases s <;> cases hd <;> rfl
  have := s.header_eq
  unfold BootImageHeader.size at hi
  unfold Slot.Contains slotSize
  omega

theorem loadInfo_congr {m m' : Nat → Byte} {s : Slot} (hleg : SameLegacy m m')
    (hsame : s.Same m m') : loadInfo m (some s) = loadInfo m' (some s) := by
  unfold loadInfo
  cases hd : BootSlot.getDescriptor (some s) with
  | none => rfl
  | some d =>
    dsimp only
    rw [readHeader_congr hd hsame, validate_congr hsame.payload]
    split
    · rename_i ha
      obtain rfl : s = .a := Option.some.inj ha.1
      exact loadLegacySlotA_congr hleg hsame.payload
    · rfl

/-- The header a slot's information block reports. -/
def headerOf (mem : Nat → Byte) (s : Slot) : BootImageHeader :=
  .ofBytes fun i => mem (s.header + i)

theorem readHeader_eq {mem : Nat → Byte} {s : Slot} {d : BootSlot.Descriptor}
    (hd : BootSlot.getDescriptor (some s) = some d) : readHeader mem d = headerOf mem s := by
  have hh : d.headerAddress = s.header := by cases s <;> cases hd <;> rfl
  rw [readHeader, hh]
  rfl

theorem loadLegacySlotA_result {mem : Nat → Byte} {info : BootImageInfo} :
    (loadLegacySlotA mem info).validationResult ≠ .valid := by
  unfold loadLegacySlotA
  dsimp only
  split
  · simp
  · split
    · simp
    · split <;> simp

/-- A valid image: its header is valid and its payload matches the header. -/
theorem loadInfo_valid_iff {mem : Nat → Byte} {s : Slot} :
    (loadInfo mem (some s)).validationResult = .valid ↔
      validateHeader (some s) (headerOf mem s) = .valid ∧
        (validatePayload mem (some s) (headerOf mem s)).1 = .valid := by
  obtain ⟨d, hd⟩ : ∃ d, BootSlot.getDescriptor (some s) = some d := by cases s <;> exact ⟨_, rfl⟩
  unfold loadInfo
  rw [hd]
  dsimp only
  rw [readHeader_eq hd]
  split
  · rename_i he
    refine ⟨fun h => absurd h loadLegacySlotA_result, fun h => ?_⟩
    rw [validateHeader_not_erased h.1] at he
    cases he.2
  · rw [validate_result]
    split
    · rename_i h
      exact ⟨fun hp => ⟨h, hp⟩, fun hp => hp.2⟩
    · rename_i h
      exact ⟨fun hp => absurd hp h, fun hp => absurd hp.1 h⟩

/-- What the information block of a valid image holds. -/
theorem loadInfo_of_valid {mem : Nat → Byte} {s : Slot}
    (h : (loadInfo mem (some s)).validationResult = .valid) :
    (loadInfo mem (some s)).valid = true ∧ (loadInfo mem (some s)).header = headerOf mem s := by
  have hv := loadInfo_valid_iff.1 h
  obtain ⟨d, hd⟩ : ∃ d, BootSlot.getDescriptor (some s) = some d := by cases s <;> exact ⟨_, rfl⟩
  unfold loadInfo at h ⊢
  rw [hd] at h ⊢
  dsimp only at h ⊢
  rw [readHeader_eq hd] at h ⊢
  rw [if_neg (by rw [validateHeader_not_erased hv.1]; simp)] at h ⊢
  refine ⟨?_, validate_header _ _ _⟩
  rw [validate_valid, h]
  rfl

/-- A validated header in flash makes the image valid. -/
theorem loadInfo_of_header {mem : Nat → Byte} {s : Slot} {h : BootImageHeader}
    (hh : headerOf mem s = h)
    (hv : (validate mem (some s) { zeroInfo with header := h }).validationResult = .valid) :
    (loadInfo mem (some s)).validationResult = .valid := by
  rw [loadInfo_valid_iff, hh]
  rw [validate_result] at hv
  dsimp only at hv
  split at hv
  · rename_i hheader
    exact ⟨hheader, hv⟩
  · rename_i hheader
    exact absurd hv hheader

end BootImage
