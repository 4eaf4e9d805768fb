import BootloaderV2.Commission

/-!
# What a valid image covers

The checks of `boot_image.c` as facts about the header and the payload, and which bytes of an image
its checksum covers.
-/

open BootConfig

namespace BootImage

/-- The header of an image for `s` that fits its slot and carries its own checksum. -/
structure HeaderValid (s : Slot) (h : BootImageHeader) : Prop where
  magic : h.magic = headerMagic
  version : h.headerVersion = headerVersion
  size_pos : 0 < h.imageSize.toNat
  size_le : h.imageSize.toNat ≤ s.header - s.base
  crc : BootCrc32.calculate h.bytes headerCrcLength = h.headerCrc32
  vector : h.vectorAddress.toNat = s.base

/-- The payload of `s` is the one that the header describes. -/
structure PayloadValid (mem : Nat → Byte) (s : Slot) (h : BootImageHeader) : Prop where
  stack : stackPointerValid (readWord mem s.base) = true
  reset_ne : readWord mem (s.base + 4) ≠ 0xFFFFFFFF
  thumb : readWord mem (s.base + 4) &&& 1 ≠ 0
  reset_ge : s.base ≤ (readWord mem (s.base + 4) &&& ~~~1).toNat
  reset_lt : (readWord mem (s.base + 4) &&& ~~~1).toNat < s.base + h.imageSize.toNat
  entry : h.entryAddress = readWord mem (s.base + 4)
  crc : BootCrc32.calculate (fun i => mem (s.base + i)) h.imageSize.toNat = h.imageCrc32

theorem descriptor_eq (s : Slot) : ∃ d, BootSlot.getDescriptor (some s) = some d ∧
    d.headerAddress = s.header ∧ d.vectorAddress = s.base ∧ d.payloadEndAddress = s.header := by
  cases s <;> exact ⟨_, rfl, rfl, rfl, rfl⟩

/-- The end of a payload that fits the slot does not wrap. -/
theorem payloadEnd_toNat {s : Slot} {h : BootImageHeader} (hv : h.vectorAddress.toNat = s.base)
    (hsize : h.imageSize.toNat ≤ s.header - s.base) :
    (h.vectorAddress + h.imageSize).toNat = s.base + h.imageSize.toNat := by
  have hbase : s.base ≤ 0x40000 := by cases s <;> decide
  have hhdr := s.header_eq
  rw [BitVec.toNat_add, hv]
  exact Nat.mod_eq_of_lt (by omega)

theorem headerIsErased_of_magic {h : BootImageHeader} (hm : h.magic = headerMagic) :
    (headerIsErased h || headerIsZero h) = false := by
  rw [Bool.or_eq_false_iff]
  constructor
  · rw [headerIsErased, Bool.eq_false_iff]
    intro hall
    have := List.all_eq_true.1 hall h.magic (by simp [BootImageHeader.toList])
    rw [hm] at this
    exact absurd this (by decide)
  · rw [headerIsZero, Bool.eq_false_iff]
    intro hall
    have := List.all_eq_true.1 hall h.magic (by simp [BootImageHeader.toList])
    rw [hm] at this
    exact absurd this (by decide)

theorem validateHeader_iff {s : Slot} {h : BootImageHeader} :
    validateHeader (some s) h = .valid ↔ HeaderValid s h := by
  obtain ⟨d, hd, hhdr, hvec, hend⟩ := descriptor_eq s
  have hheader := s.header_eq
  have haddress : (!BootSlot.containsRange (some s) d.headerAddress BootImageHeader.size ||
      decide (d.headerAddress < d.payloadEndAddress)) = false := by
    rw [hhdr, hend]
    cases s <;> decide
  have hrange : BootSlot.containsRange (some s) s.base 8 = true := by cases s <;> decide
  have haligned : s.base % vectorAlignment = 0 := by cases s <;> decide
  unfold validateHeader
  rw [hd]
  dsimp only
  rw [haddress, hend, hvec, if_neg (by decide)]
  constructor
  · intro hvalid
    split at hvalid
    · cases hvalid
    split at hvalid
    · cases hvalid
    split at hvalid
    · cases hvalid
    split at hvalid
    · cases hvalid
    split at hvalid
    · cases hvalid
    split at hvalid
    · cases hvalid
    rename_i hmagic hversion hsize hcrc hvector
    rw [not_or, not_lt] at hsize
    rw [not_or, not_not] at hvector
    refine ⟨not_not.1 hmagic, not_not.1 hversion, ?_, hsize.2, not_not.1 hcrc, hvector.1⟩
    have : h.imageSize.toNat ≠ 0 := fun h0 => hsize.1 (BitVec.eq_of_toNat_eq h0)
    omega
  · intro hv
    have hpos := hv.size_pos
    have hle := hv.size_le
    rw [if_neg (by rw [headerIsErased_of_magic hv.magic]; decide), if_neg (not_not.2 hv.magic),
      if_neg (not_not.2 hv.version), if_neg, if_neg (not_not.2 hv.crc), if_neg, if_neg]
    · rw [payloadEnd_toNat hv.vector hle]
      omega
    · rw [hv.vector, hrange, haligned]
      simp
      omega
    · rw [not_or, not_lt]
      refine ⟨fun h0 => ?_, hle⟩
      rw [h0] at hpos
      exact absurd hpos (by decide)

/-- The header of one slot has the wrong vector address for the other. -/
theorem validateHeader_other {s : Slot} {h : BootImageHeader} (hv : HeaderValid s h) :
    validateHeader (some s.other) h = .errVector := by
  obtain ⟨d, hd, hhdr, hvec, hend⟩ := descriptor_eq s.other
  have haddress : (!BootSlot.containsRange (some s.other) d.headerAddress BootImageHeader.size ||
      decide (d.headerAddress < d.payloadEndAddress)) = false := by
    rw [hhdr, hend]
    cases s <;> decide
  have hsize : ¬ (h.imageSize = 0 ∨ s.other.header - s.other.base < h.imageSize.toNat) := by
    have hpos := hv.size_pos
    have hle := hv.size_le
    rw [s.header_eq] at hle
    rw [s.other.header_eq, not_or, not_lt]
    refine ⟨fun h0 => ?_, by omega⟩
    rw [h0] at hpos
    exact absurd hpos (by decide)
  have hbase : s.base ≠ s.other.base := by cases s <;> decide
  unfold validateHeader
  rw [hd]
  dsimp only
  rw [haddress, hend, hvec, if_neg (by decide),
    if_neg (by rw [headerIsErased_of_magic hv.magic]; decide), if_neg (not_not.2 hv.magic),
    if_neg (not_not.2 hv.version), if_neg hsize, if_neg (not_not.2 hv.crc), if_pos]
  left
  rw [hv.vector]
  exact hbase

/-- The information block of an image without a valid header says what is wrong with it. -/
theorem loadInfo_of_validateHeader {mem : Nat → Byte} {s : Slot}
    (hm : (headerOf mem s).magic = headerMagic)
    (hv : validateHeader (some s) (headerOf mem s) ≠ .valid) :
    (loadInfo mem (some s)).validationResult = validateHeader (some s) (headerOf mem s) := by
  obtain ⟨d, hd, -⟩ := descriptor_eq s
  have herased := headerIsErased_of_magic hm
  rw [Bool.or_eq_false_iff] at herased
  unfold loadInfo
  rw [hd]
  dsimp only
  rw [readHeader_eq hd, if_neg (by rw [herased.1]; simp), validate_result]
  exact if_neg hv

theorem validatePayload_iff {mem : Nat → Byte} {s : Slot} {h : BootImageHeader}
    (hv : HeaderValid s h) :
    (validatePayload mem (some s) h).1 = .valid ↔ PayloadValid mem s h := by
  obtain ⟨d, hd, hhdr, hvec, hend⟩ := descriptor_eq s
  have hheader := s.header_eq
  have hrange : BootSlot.containsRange (some s) s.base 8 = true := by cases s <;> decide
  have hpos := hv.size_pos
  have hle := hv.size_le
  have hpayload := payloadEnd_toNat hv.vector hle
  have hzero : h.imageSize ≠ 0 := by
    intro h0
    rw [h0] at hpos
    exact absurd hpos (by decide)
  have hguard : ¬ (h.imageSize = 0 ∨ s.header - s.base < h.imageSize.toNat ∨ s.base ≠ s.base ∨
      (!BootSlot.containsRange (some s) s.base 8) = true) := by
    rw [hrange]
    rintro (h0 | hgt | hne | hno)
    · exact hzero h0
    · omega
    · exact hne rfl
    · cases hno
  unfold validatePayload
  rw [hd]
  dsimp only
  rw [hend, hvec, hv.vector, hpayload, if_neg hguard, if_neg (by omega)]
  dsimp only
  constructor
  · intro hvalid
    split at hvalid
    · cases hvalid
    split at hvalid
    · cases hvalid
    split at hvalid
    · cases hvalid
    split at hvalid
    · cases hvalid
    rename_i hstack hreset hentry hcrc
    rw [not_or, not_or, not_or, not_or, not_lt, not_le] at hreset
    obtain ⟨-, hne, hthumb, hge, hlt⟩ := hreset
    exact ⟨by simpa using hstack, hne, hthumb, hge, hlt, not_not.1 hentry, not_not.1 hcrc⟩
  · intro hp
    have hne : readWord mem (s.base + 4) ≠ 0 := by
      intro h0
      have := hp.thumb
      rw [h0] at this
      exact this (by decide)
    rw [if_neg (by simp [hp.stack]), if_neg, if_neg (not_not.2 hp.entry), if_neg (not_not.2 hp.crc)]
    rw [not_or, not_or, not_or, not_or, not_lt, not_le]
    exact ⟨hne, hp.reset_ne, hp.thumb, hp.reset_ge, hp.reset_lt⟩

/-- An image is valid when its header is, and its payload is the one of the header. -/
theorem loadInfo_iff {mem : Nat → Byte} {s : Slot} :
    (loadInfo mem (some s)).validationResult = .valid ↔
      HeaderValid s (headerOf mem s) ∧ PayloadValid mem s (headerOf mem s) := by
  rw [loadInfo_valid_iff, validateHeader_iff]
  exact and_congr_right fun hv => validatePayload_iff hv

theorem validate_vectors {mem : Nat → Byte} {s : Slot} {info : BootImageInfo}
    (hv : HeaderValid s info.header) :
    (validate mem (some s) info).initialMsp = readWord mem s.base ∧
      (validate mem (some s) info).resetHandler = readWord mem (s.base + 4) := by
  have hvectors : (validatePayload mem (some s) info.header).2 =
      some (readWord mem s.base, readWord mem (s.base + 4)) := by
    obtain ⟨d, hd, hhdr, hvec, hend⟩ := descriptor_eq s
    have hheader := s.header_eq
    have hrange : BootSlot.containsRange (some s) s.base 8 = true := by cases s <;> decide
    have hpos := hv.size_pos
    have hle := hv.size_le
    unfold validatePayload
    rw [hd]
    dsimp only
    rw [hend, hvec, hv.vector, payloadEnd_toNat hv.vector hle, if_neg, if_neg (by omega)]
    rw [hrange]
    rintro (h0 | hgt | hne | hno)
    · rw [h0] at hpos
      exact absurd hpos (by decide)
    · omega
    · exact hne rfl
    · cases hno
  unfold validate
  rw [validateHeader_iff.2 hv]
  dsimp only
  rw [hvectors]
  exact ⟨rfl, rfl⟩

/-- The information block of a valid image reports the vectors in flash. -/
theorem loadInfo_vectors {mem : Nat → Byte} {s : Slot}
    (h : (loadInfo mem (some s)).validationResult = .valid) :
    (loadInfo mem (some s)).initialMsp = readWord mem s.base ∧
      (loadInfo mem (some s)).resetHandler = readWord mem (s.base + 4) := by
  have hv := (loadInfo_iff.1 h).1
  obtain ⟨d, hd, -⟩ := descriptor_eq s
  unfold loadInfo
  rw [hd]
  dsimp only
  rw [readHeader_eq hd, if_neg]
  · exact validate_vectors hv
  · have herased := headerIsErased_of_magic hv.magic
    rw [Bool.or_eq_false_iff] at herased
    rw [herased.1]
    simp

/-- The range that the checksum of the image covers lies in the payload area of the slot, and the
    two vectors and the address of the reset handler lie in it. -/
structure Covered (mem : Nat → Byte) (s : Slot) : Prop where
  start : (headerOf mem s).vectorAddress.toNat = s.base
  noOverflow : s.base + (headerOf mem s).imageSize.toNat < 2 ^ 32
  inside : s.base + (headerOf mem s).imageSize.toNat ≤ s.header
  crc : BootCrc32.calculate (fun i => mem (s.base + i)) (headerOf mem s).imageSize.toNat =
    (headerOf mem s).imageCrc32
  vectors : s.base + 8 ≤ s.base + (headerOf mem s).imageSize.toNat
  reset_ge : s.base ≤ (readWord mem (s.base + 4) &&& ~~~1).toNat
  reset_lt : (readWord mem (s.base + 4) &&& ~~~1).toNat <
    s.base + (headerOf mem s).imageSize.toNat
  initialMsp : (loadInfo mem (some s)).initialMsp = readWord mem s.base
  resetHandler : (loadInfo mem (some s)).resetHandler = readWord mem (s.base + 4)

/-- A valid image is covered by its checksum where it matters if and only if it has room for its own
    vectors. -/
theorem valid_covered_iff {mem : Nat → Byte} {slot : SlotId}
    (h : (loadInfo mem slot).validationResult = .valid) :
    ∃ s, slot = some s ∧ (Covered mem s ↔ 8 ≤ (headerOf mem s).imageSize.toNat) := by
  cases slot with
  | none => cases h
  | some s =>
    refine ⟨s, rfl, fun hc => ?_, fun hsize => ?_⟩
    · have := hc.vectors
      omega
    · obtain ⟨hv, hp⟩ := loadInfo_iff.1 h
      obtain ⟨hmsp, hreset⟩ := loadInfo_vectors h
      have hle := hv.size_le
      have hheader := s.header_eq
      have hbase : s.base ≤ 0x40000 := by cases s <;> decide
      exact ⟨hv.vector, by omega, by omega, hp.crc, by omega, hp.reset_ge, hp.reset_lt, hmsp, hreset⟩

/-- The shortest program with its header. -/
theorem covered_packedImage : ∃ s, some Slot.a = some s ∧ (Covered packedImage s ↔
    8 ≤ (headerOf packedImage s).imageSize.toNat) :=
  valid_covered_iff (by decide +kernel)

/-- Two vectors of which the header claims the first only. -/
def uncoveredImage : Nat → Byte :=
  storeWords slotAHeaderAddress { BootImageHeader.zero with
      magic := headerMagic
      headerVersion := headerVersion
      imageSize := 4
      imageCrc32 := 0x1A2AFFD4
      softwareVersion := 0x01000000
      vectorAddress := 0x8000
      entryAddress := 0x8001
      headerCrc32 := 0x6E173BD7 : BootImageHeader }.toList
    (storeWords slotABaseAddress [0x20000000, 0x8001] fun _ => 0xFF)

/-- The image is valid, but the word of the reset handler is outside the checksum. -/
theorem uncovered_valid : (loadInfo uncoveredImage (some .a)).validationResult = .valid ∧
    ¬ Covered uncoveredImage .a := by
  refine ⟨by decide +kernel, fun hc => ?_⟩
  have hsize : (headerOf uncoveredImage .a).imageSize.toNat = 4 := by decide +kernel
  have := hc.vectors
  omega

end BootImage
