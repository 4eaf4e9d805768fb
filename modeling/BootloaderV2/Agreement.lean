import BootloaderV2.Packing
import BootloaderV2.Transfer

/-!
# The same images

The reader of the gateway and the bootloader check an image each in its own words.  They accept the
same files, but for the shortest payloads and for what lies behind the header.
-/

open ImageFormat Buffer

namespace PackedImage

/-- The header that a file of a whole slot ends with. -/
def headerIn (data : List Byte) : BootImageHeader :=
  BootImageHeader.ofBytes fun i => byteAt data (headerOffset + i)

variable {data : List Byte} {image : PackedImage} {t : Slot} {mem : Nat → Byte}

theorem byteAt_subarray {start stop i : Nat} (h : i < stop - start) :
    byteAt (subarray data start stop) i = byteAt data (start + i) := by
  unfold byteAt subarray
  simp [List.getD_eq_getElem?_getD, List.getElem?_drop, h]

theorem wordLE_headerIn {k : Nat} (hk : k < 16) :
    wordLE (subarray data headerOffset (headerOffset + 64)) (4 * k) = (headerIn data).words k := by
  unfold headerIn BootImageHeader.ofBytes
  rw [BootImageHeader.words_ofWords _ hk]
  unfold wordLE Words.wordOf
  dsimp only
  rw [byteAt_subarray (by omega), byteAt_subarray (by omega), byteAt_subarray (by omega),
    byteAt_subarray (by omega)]
  rfl

theorem crc_headerIn (hlength : data.length = slotSize) :
    Binascii.crc32 ((subarray data headerOffset (headerOffset + 64)).take 60) &&& 0xFFFFFFFF =
      (BootCrc32.calculate (headerIn data).bytes BootImage.headerCrcLength).toNat := by
  have hss : slotSize = 229376 := rfl
  have hoff : headerOffset = 225280 := rfl
  have hsize : BootImageHeader.size = 64 := rfl
  have hlen : ((subarray data headerOffset (headerOffset + 64)).take 60).length = 60 := by
    unfold subarray
    rw [List.length_take, List.length_take, List.length_drop]
    omega
  rw [binascii_eq, hlen]
  refine congrArg BitVec.toNat (BootCrc32.calculate_congr fun i hi => ?_)
  have hlt : i < 60 := hi
  have hbyte : byteAt (subarray data headerOffset (headerOffset + 64)) i =
      byteAt data (headerOffset + i) := byteAt_subarray (by omega)
  unfold headerIn
  rw [BootImageHeader.bytes_ofBytes _ (by omega), ← hbyte]
  unfold byteAt
  simp [List.getD_eq_getElem?_getD, hlt]

/-- What the reader of the gateway checks, in the words of the header. -/
structure Checked (data : List Byte) (t : Slot) : Prop where
  length : data.length = slotSize
  magic : (headerIn data).magic = 0x42493256
  format : (headerIn data).headerVersion = 1
  headerCrc : BootCrc32.calculate (headerIn data).bytes BootImage.headerCrcLength =
    (headerIn data).headerCrc32
  vector : (headerIn data).vectorAddress.toNat = (slots t).vectorAddress
  entry : (headerIn data).entryAddress = wordLE data 4
  accepted : Accepted (slots t) (headerIn data).imageSize.toNat (wordLE data 0) (wordLE data 4)
  payloadCrc : BootCrc32.calculate (byteAt data) (headerIn data).imageSize.toNat =
    (headerIn data).imageCrc32
  tail : BootProgramming.TailErased (byteAt data)

/-- The image that is read. -/
def imageIn (data : List Byte) (t : Slot) : PackedImage :=
  ⟨data, (slots t).id, (headerIn data).softwareVersion.toNat, (headerIn data).imageSize.toNat,
    (headerIn data).imageCrc32.toNat, (headerIn data).buildId.toNat⟩

theorem crc_take {n : Nat} (hn : n ≤ data.length) :
    Binascii.crc32 (data.take n) &&& 0xFFFFFFFF = (BootCrc32.calculate (byteAt data) n).toNat := by
  rw [binascii_eq, calculate_take hn]

theorem tail_iff (hlength : data.length = slotSize) :
    (data.drop (headerOffset + 64)).any (· ≠ 255) = false ↔
      BootProgramming.TailErased (byteAt data) := by
  have hss : slotSize = 229376 := rfl
  have hoff : headerOffset = 225280 := rfl
  have hoff' : BootProgramming.headerOffset = 225280 := rfl
  have hsize : BootImageHeader.size = 64 := rfl
  have hcs : BootConfig.slotSize = 229376 := rfl
  rw [List.any_eq_false]
  constructor
  · intro h i hlo hhi
    have hi : i < data.length := by omega
    have hmem : data[i] ∈ data.drop (headerOffset + 64) := by
      rw [List.mem_drop_iff_getElem]
      have hback : headerOffset + 64 + (i - (headerOffset + 64)) = i := by omega
      exact ⟨i - (headerOffset + 64), by omega, by simp [hback]⟩
    have hx := h _ hmem
    unfold byteAt
    rw [List.getD_eq_getElem _ _ hi]
    simpa using hx
  · intro h x hx
    rw [List.mem_drop_iff_getElem] at hx
    obtain ⟨k, hk, rfl⟩ := hx
    have hbyte := h (headerOffset + 64 + k) (by omega) (by omega)
    unfold byteAt at hbyte
    rw [List.getD_eq_getElem _ _ (by omega)] at hbyte
    simpa using hbyte

theorem Checked.parse (h : Checked data t) : parse data = .ok (imageIn data t) := by
  have hsize := h.accepted.size_le
  have hfits : (headerIn data).imageSize.toNat ≤ data.length := by
    rw [h.length]
    exact Nat.le_trans hsize (by cases t <;> decide)
  apply parse_of_fields h.length (fun k hk => wordLE_headerIn hk) rfl rfl
  · rw [h.magic]
    rfl
  · rw [h.format]
    rfl
  · rw [crc_headerIn h.length, h.headerCrc]
  · exact h.vector
  · exact h.entry
  · exact h.accepted
  · rw [crc_take hfits, h.payloadCrc]
  · exact (tail_iff h.length).2 h.tail

theorem and_seven_eq {w : Word} (h : w.toNat % 8 = 0) : w &&& 7 = 0 := by
  apply BitVec.eq_of_toNat_eq
  have hmod := Nat.and_two_pow_sub_one_eq_mod w.toNat 3
  rw [BitVec.toNat_and]
  exact hmod.trans h

theorem exists_slot_of_base {n : Nat} (h : slotBases.contains n = true) :
    ∃ t : Slot, n = (slots t).vectorAddress := by
  rw [List.contains_iff_mem] at h
  rcases List.mem_cons.1 h with rfl | h
  · exact ⟨.a, rfl⟩
  · obtain rfl := List.mem_singleton.1 h
    exact ⟨.b, rfl⟩

theorem checked_of_parse (h : parse data = .ok image) :
    ∃ t, Checked data t ∧ image = imageIn data t := by
  have h0 : wordLE _ (4 * 0) = (headerIn data).magic := wordLE_headerIn (by decide)
  have h1 : wordLE _ (4 * 1) = (headerIn data).headerVersion := wordLE_headerIn (by decide)
  have h2 : wordLE _ (4 * 2) = (headerIn data).imageSize := wordLE_headerIn (by decide)
  have h3 : wordLE _ (4 * 3) = (headerIn data).imageCrc32 := wordLE_headerIn (by decide)
  have h4 : wordLE _ (4 * 4) = (headerIn data).softwareVersion := wordLE_headerIn (by decide)
  have h5 : wordLE _ (4 * 5) = (headerIn data).buildId := wordLE_headerIn (by decide)
  have h6 : wordLE _ (4 * 6) = (headerIn data).vectorAddress := wordLE_headerIn (by decide)
  have h7 : wordLE _ (4 * 7) = (headerIn data).entryAddress := wordLE_headerIn (by decide)
  have h15 : wordLE _ (4 * 15) = (headerIn data).headerCrc32 := wordLE_headerIn (by decide)
  unfold parse at h
  dsimp only at h
  simp only [-Nat.reduceMul, h0, h1, h2, h3, h4, h5, h6, h7, h15] at h
  -- each check in the order of the source
  by_cases hlength : data.length = slotSize
  swap
  · rw [if_pos hlength] at h
    cases h
  rw [if_neg (not_not.2 hlength)] at h
  split at h
  · cases h
  rename_i hstart
  split at h
  · cases h
  rename_i hchecked
  split at h
  · cases h
  rename_i hsize
  split at h
  · cases h
  rename_i hbase
  split at h
  · cases h
  rename_i hstack
  split at h
  · cases h
  rename_i hhandler
  split at h
  · cases h
  rename_i hpayload
  split at h
  · cases h
  rename_i htail
  obtain ⟨hmagic, hformat⟩ := not_or.1 hstart
  obtain ⟨hge, hle⟩ := not_not.1 hsize
  obtain ⟨hrange, haligned⟩ := not_or.1 hstack
  obtain ⟨hmspge, hmsple⟩ := not_not.1 hrange
  obtain ⟨hthumb, hrest⟩ := not_or.1 hhandler
  obtain ⟨hinside, hentry⟩ := not_or.1 hrest
  obtain ⟨hlow, hhigh⟩ := not_not.1 hinside
  obtain ⟨t, ht⟩ := exists_slot_of_base (not_not.1 hbase)
  rw [toNat_clear] at hlow hhigh
  refine ⟨t, ⟨hlength, BitVec.eq_of_toNat_eq (not_not.1 hmagic),
    BitVec.eq_of_toNat_eq (not_not.1 hformat), ?_, ht, BitVec.eq_of_toNat_eq (not_not.1 hentry), ?_,
    ?_, ?_⟩, ?_⟩
  · rw [crc_headerIn hlength] at hchecked
    exact BitVec.eq_of_toNat_eq (not_not.1 hchecked)
  · refine ⟨hge, Nat.le_trans hle (by cases t <;> decide), hmspge, hmsple,
      and_seven_eq (not_not.1 haligned), fun h0 => hthumb ?_, ?_, ?_⟩
    · exact congrArg BitVec.toNat h0
    · rw [← ht]
      exact hlow
    · rw [← ht]
      exact hhigh
  · have hfits : (headerIn data).imageSize.toNat ≤ data.length := by
      rw [hlength]
      exact Nat.le_trans hle (by decide)
    rw [crc_take hfits] at hpayload
    exact BitVec.eq_of_toNat_eq (not_not.1 hpayload)
  · exact (tail_iff hlength).1 (by simpa using htail)
  · rw [ht, idxOf_slotBases] at h
    exact (Except.ok.inj h).symm

theorem headerOf_flashed_data (hlength : data.length = slotSize) :
    BootImage.headerOf (flashed t data mem) t = headerIn data := by
  apply BootImageHeader.ofBytes_congr
  intro i hi
  have hsize : BootImageHeader.size = 64 := rfl
  have hss : slotSize = 229376 := rfl
  have hoff : headerOffset = 225280 := rfl
  have hhdr := t.header_eq
  rw [show t.header + i = t.base + (headerOffset + i) by rw [hhdr, Nat.add_assoc]; rfl]
  exact NorFlash.place_inside (by omega)

theorem readWord_flashed_data (hlength : data.length = slotSize) {offset : Nat}
    (h : offset + 4 ≤ slotSize) :
    readWord (flashed t data mem) (t.base + offset) = wordLE data offset := by
  apply Words.wordOf_congr
  intro i _ hlt
  rw [Nat.add_assoc]
  exact NorFlash.place_inside (by omega)

theorem crc_flashed (hlength : data.length = slotSize) {n : Nat} (hn : n ≤ slotSize) :
    BootCrc32.calculate (fun i => flashed t data mem (t.base + i)) n =
      BootCrc32.calculate (byteAt data) n :=
  BootCrc32.calculate_congr fun _ _ => NorFlash.place_inside (by omega)

theorem stackPointerValid_iff {msp : Word} : stackPointerValid msp = true ↔
    sramStart ≤ msp.toNat ∧ msp.toNat ≤ sramEnd ∧ msp &&& 7 = 0 := by
  have hstart : BootConfig.sramBaseAddress = sramStart := rfl
  have hend : BootConfig.sramApplicationEndAddress = sramEnd := rfl
  constructor
  · intro h
    unfold stackPointerValid at h
    simp only [Bool.not_eq_true', Bool.or_eq_false_iff, decide_eq_false_iff_not, not_lt,
      bne_eq_false_iff_eq] at h
    exact ⟨hstart ▸ h.1.1.2, hend ▸ h.1.2, h.2⟩
  · rintro ⟨hge, hle, haligned⟩
    have haccepted : Accepted (slots .a) 8 msp 0x8001 :=
      ⟨by decide, by decide, hge, hle, haligned, by decide, by decide, by decide⟩
    exact stackPointerValid_of_accepted haccepted

/-- The bootloader finds the file valid in the slot that it is checked for. -/
theorem Checked.loadInfo_valid (h : Checked data t) :
    (BootImage.loadInfo (flashed t data mem) (some t)).validationResult = .valid := by
  have hbase : (slots t).vectorAddress = t.base := by cases t <;> rfl
  have hend : (slots t).payloadEndAddress = t.header := by cases t <;> rfl
  have hhdr : t.header - t.base ≤ 225280 := by cases t <;> decide
  have hss : slotSize = 229376 := rfl
  have hpos := h.accepted.size_ge
  have hsize := h.accepted.size_le
  have hlow := h.accepted.reset_ge
  have hhigh := h.accepted.reset_lt
  rw [hbase, hend] at hsize
  rw [hbase] at hlow hhigh
  have hmsp := @readWord_flashed_data data t mem h.length 0 (by decide)
  have hreset := @readWord_flashed_data data t mem h.length 4 (by decide)
  rw [Nat.add_zero] at hmsp
  rw [BootImage.loadInfo_iff, headerOf_flashed_data h.length]
  refine ⟨⟨h.magic, h.format, by omega, hsize, h.headerCrc, h.vector.trans hbase⟩, ?_, ?_, ?_, ?_,
    ?_, ?_, ?_⟩
  · rw [hmsp]
    exact stackPointerValid_iff.2 ⟨h.accepted.msp_ge, h.accepted.msp_le, h.accepted.aligned⟩
  · rw [hreset]
    intro hones
    rw [hones] at hhigh
    have hcleared : (0xFFFFFFFF &&& ~~~1 : Word).toNat = 0xFFFFFFFE := by decide
    have hle : t.base ≤ 0x40000 := by cases t <;> decide
    omega
  · rw [hreset]
    exact h.accepted.thumb
  · rw [hreset]
    exact hlow
  · rw [hreset]
    exact hhigh
  · rw [hreset]
    exact h.entry
  · rw [crc_flashed h.length (by omega)]
    exact h.payloadCrc

/-- What the gateway asks for beyond it. -/
theorem checked_of_valid (hlength : data.length = slotSize)
    (htail : BootProgramming.TailErased (byteAt data))
    (hge : 8 ≤ (headerIn data).imageSize.toNat)
    (hvalid : (BootImage.loadInfo (flashed t data mem) (some t)).validationResult = .valid) :
    Checked data t := by
  have hbase : (slots t).vectorAddress = t.base := by cases t <;> rfl
  have hend : (slots t).payloadEndAddress = t.header := by cases t <;> rfl
  have hhdr : t.header - t.base ≤ 225280 := by cases t <;> decide
  have hss : slotSize = 229376 := rfl
  rw [BootImage.loadInfo_iff, headerOf_flashed_data hlength] at hvalid
  obtain ⟨hheader, hpayload⟩ := hvalid
  have hsize := hheader.size_le
  have hmsp := @readWord_flashed_data data t mem hlength 0 (by decide)
  have hreset := @readWord_flashed_data data t mem hlength 4 (by decide)
  rw [Nat.add_zero] at hmsp
  have hstack := hpayload.stack
  have hthumb := hpayload.thumb
  have hlow := hpayload.reset_ge
  have hhigh := hpayload.reset_lt
  have hentry := hpayload.entry
  have hcrc := hpayload.crc
  rw [hmsp] at hstack
  rw [hreset] at hthumb hlow hhigh hentry
  rw [crc_flashed hlength (by omega)] at hcrc
  obtain ⟨hmspge, hmsple, haligned⟩ := stackPointerValid_iff.1 hstack
  refine ⟨hlength, hheader.magic, hheader.version, hheader.crc, hheader.vector.trans hbase.symm,
    hentry, ⟨hge, ?_, hmspge, hmsple, haligned, hthumb, ?_, ?_⟩, hcrc, htail⟩
  · rw [hbase, hend]
    exact hsize
  · rw [hbase]
    exact hlow
  · rw [hbase]
    exact hhigh

/-- The gateway accepts a file just if the bootloader finds it valid in a slot that it fills, it has
    two words of payload at least, and what lies behind its header is erased. -/
theorem parse_iff (mem : Nat → Byte) : parse data = .ok image ↔ data.length = slotSize ∧
    BootProgramming.TailErased (byteAt data) ∧ 8 ≤ (headerIn data).imageSize.toNat ∧
    ∃ t : Slot, (BootImage.loadInfo (flashed t data mem) (some t)).validationResult = .valid ∧
      image = imageIn data t := by
  constructor
  · intro h
    obtain ⟨t, ht, rfl⟩ := checked_of_parse h
    exact ⟨ht.length, ht.tail, ht.accepted.size_ge, t, ht.loadInfo_valid, rfl⟩
  · rintro ⟨hlength, htail, hsize, t, hvalid, rfl⟩
    exact (checked_of_valid hlength htail hsize hvalid).parse

end PackedImage
