import BootloaderV2.ImageFormat
import Mathlib.Data.List.Induction

/-!
# The packer and the validators agree

What `packImage` builds is the payload, erased bytes, the header and erased bytes again.  The
validator of the packer, the reader of the gateway and the bootloader all find the same header in it.
-/

open Buffer BootConfig

theorem Except.ok_bind {ε α β : Type} (a : α) (f : α → Except ε β) : (Except.ok a >>= f) = f a := rfl

namespace ImageFormat

/-! ## The checksum -/

theorem crcBit_eq (w : Word) : crcBit w.toNat = (BootCrc32.shift w).toNat := by
  unfold crcBit BootCrc32.shift
  have hlow : JsNumber.and w.toNat 1 ≠ 0 ↔ w &&& 1 ≠ 0 := by
    unfold JsNumber.and
    rw [JsNumber.bits_toNat, ne_eq, JsNumber.toInt_eq_zero]
    rfl
  have hshift : (JsNumber.ushr w.toNat 1 : Int) = (w >>> 1).toNat := by
    unfold JsNumber.ushr
    rw [JsNumber.bits_toNat]
  by_cases h : w &&& 1 ≠ 0
  · rw [if_pos h, if_pos (hlow.2 h), hshift, JsNumber.ushr_zero]
    unfold JsNumber.xor
    rw [JsNumber.bits_toInt, JsNumber.bits_toNat]
    rfl
  · rw [if_neg h, if_neg (mt hlow.1 h), hshift, JsNumber.ushr_zero, JsNumber.bits_toNat]

theorem repeat_crcBit (n : Nat) (w : Word) :
    Nat.repeat crcBit n w.toNat = (Nat.repeat BootCrc32.shift n w).toNat := by
  induction n with
  | zero => rfl
  | succ n ih =>
    show crcBit (Nat.repeat crcBit n w.toNat) = (BootCrc32.shift (Nat.repeat BootCrc32.shift n w)).toNat
    rw [ih]
    exact crcBit_eq _

theorem crcByte_eq (w : Word) (b : Byte) : crcByte w.toNat b = (BootCrc32.update w b).toNat := by
  unfold crcByte BootCrc32.update
  rw [← repeat_crcBit, JsNumber.ushr_zero]
  unfold JsNumber.xor
  rw [JsNumber.bits_toInt, JsNumber.bits_toNat, JsNumber.bits_natCast, BitVec.ofNat_toNat]

theorem foldl_crcByte (data : List Byte) :
    data.foldl crcByte 0xFFFFFFFF = (BootCrc32.register (byteAt data) data.length).toNat := by
  -- from the last byte, as the register is defined
  induction data using List.reverseRecOn with
  | nil => rfl
  | append_singleton data b ih =>
    rw [List.foldl_append, ih, List.length_append]
    show crcByte _ b = (BootCrc32.update (BootCrc32.register _ data.length) _).toNat
    have hbefore : BootCrc32.register (byteAt (data ++ [b])) data.length =
        BootCrc32.register (byteAt data) data.length :=
      BootCrc32.register_congr fun i hi => byteAt_append_left hi
    have hlast : byteAt (data ++ [b]) data.length = b := byteAt_append_right 0
    rw [hbefore, hlast]
    exact crcByte_eq _ b

/-- The packer's checksum is the bootloader's. -/
theorem crc32_eq (data : List Byte) :
    crc32 data = (BootCrc32.calculate (byteAt data) data.length).toNat := by
  unfold crc32
  rw [foldl_crcByte, JsNumber.ushr_zero]
  unfold JsNumber.xor
  rw [JsNumber.bits_toInt, JsNumber.bits_toNat]
  rfl

/-! ## The header -/

/-- A word is written over four bytes. -/
theorem writeUInt32_eq (before : List Byte) {gap : List Byte} (rest : List Byte) (w : Word)
    (h : gap.length = 4) :
    writeUInt32 (before ++ (gap ++ rest)) w.toNat before.length =
      .ok (before ++ (bytesLE w ++ rest)) := by
  have hroom : before.length + 4 ≤ (before ++ (gap ++ rest)).length := by
    rw [List.length_append, List.length_append, h]
    omega
  have hrest : (before ++ (gap ++ rest)).drop (before.length + 4) = rest := by
    rw [← h, ← List.drop_drop, List.drop_left, List.drop_left]
  unfold writeUInt32 writeUInt32LE
  rw [if_pos ⟨w.isLt, hroom⟩, List.take_left, hrest, BitVec.ofNat_toNat, BitVec.setWidth_eq,
    List.append_assoc]

/-- The fields fill the first words of a header. -/
theorem writeFields_eq (fields : List Nat) : ∀ (before rest : List Byte) (index : Nat),
    before.length = index * 4 →
    writeFields (before ++ (List.replicate (4 * fields.length) 0 ++ rest)) index fields =
      .ok (before ++ ((fields.map (BitVec.ofNat 32)).flatMap bytesLE ++ rest)) := by
  induction fields with
  | nil => exact fun before rest index _ => rfl
  | cons value fields ih =>
    intro before rest index hbefore
    have hzeros : (List.replicate (4 * (value :: fields).length) 0 : List Byte) =
        List.replicate 4 0 ++ List.replicate (4 * fields.length) 0 := by
      rw [List.replicate_append_replicate, List.length_cons]
      congr 1
      omega
    have hwrite := writeUInt32_eq before (List.replicate (4 * fields.length) 0 ++ rest)
      (BitVec.ofNat 32 value) (List.length_replicate (n := 4) (a := 0))
    rw [hbefore] at hwrite
    have hnext := ih (before ++ bytesLE (BitVec.ofNat 32 value)) rest (index + 1)
      (by rw [List.length_append, length_bytesLE]; omega)
    unfold writeFields
    rw [hzeros, List.append_assoc, JsNumber.ushr_zero, JsNumber.bits_natCast, hwrite]
    simp only [List.append_assoc] at hnext
    show writeFields _ (index + 1) fields = _
    rw [hnext, List.map_cons, List.flatMap_cons, List.append_assoc]

/-- The words of the header that is built. -/
def fieldWords (args : PackArgs) (slot : SlotEntry) : List Word :=
  [BitVec.ofNat 32 headerMagic, BitVec.ofNat 32 headerVersion, BitVec.ofNat 32 args.payload.length,
    BootCrc32.calculate (byteAt args.payload) args.payload.length,
    JsNumber.bits args.softwareVersion,
    args.buildId.elim (BootCrc32.calculate (byteAt args.payload) args.payload.length) JsNumber.bits,
    BitVec.ofNat 32 slot.vectorAddress, wordLE args.payload 4, JsNumber.bits (args.flags.getD 0),
    0, 0, 0, 0, 0, 0]

def headerWords (args : PackArgs) (slot : SlotEntry) : List Word :=
  fieldWords args slot ++
    [BootCrc32.calculate (byteAt ((fieldWords args slot).flatMap bytesLE)) headerCrcLength]

theorem readUInt32_eq {b : List Byte} {offset : Nat} (h : offset + 4 ≤ b.length) :
    readUInt32 b offset = .ok (wordLE b offset).toNat := by
  unfold readUInt32 readUInt32LE
  rw [if_pos h]

theorem length_fieldBytes (args : PackArgs) (slot : SlotEntry) :
    ((fieldWords args slot).flatMap bytesLE).length = headerCrcLength := by
  rw [length_flatMap]
  rfl

theorem subarray_zero (b c : List Byte) : subarray (b ++ c) 0 b.length = b := List.take_left

/-- The fields of an empty header, as they are written. -/
theorem writeFields_replicate {args : PackArgs} {slot : SlotEntry} :
    writeFields (List.replicate headerSize 0) 0 [headerMagic, headerVersion, args.payload.length,
      crc32 args.payload, JsNumber.ushr args.softwareVersion 0,
      JsNumber.ushr (args.buildId.getD (crc32 args.payload)) 0, slot.vectorAddress,
      (wordLE args.payload 4).toNat, JsNumber.ushr (args.flags.getD 0) 0] =
    .ok ((fieldWords args slot).flatMap bytesLE ++ List.replicate 4 0) := by
  have hid : JsNumber.bits (args.buildId.getD (crc32 args.payload)) =
      args.buildId.elim (BootCrc32.calculate (byteAt args.payload) args.payload.length)
        JsNumber.bits := by
    cases args.buildId with
    | none =>
      show JsNumber.bits (crc32 args.payload : Int) = _
      rw [crc32_eq, JsNumber.bits_toNat]
      rfl
    | some id => rfl
  have hcrc : BitVec.ofNat 32 (crc32 args.payload) =
      BootCrc32.calculate (byteAt args.payload) args.payload.length := by
    rw [crc32_eq, BitVec.ofNat_toNat, BitVec.setWidth_eq]
  have hwords : [headerMagic, headerVersion, args.payload.length, crc32 args.payload,
      JsNumber.ushr args.softwareVersion 0,
      JsNumber.ushr (args.buildId.getD (crc32 args.payload)) 0, slot.vectorAddress,
      (wordLE args.payload 4).toNat, JsNumber.ushr (args.flags.getD 0) 0].map (BitVec.ofNat 32) ++
        List.replicate 6 0 = fieldWords args slot := by
    simp only [List.map_cons, List.map_nil, JsNumber.ushr_zero, BitVec.ofNat_toNat,
      BitVec.setWidth_eq, hid, hcrc]
    rfl
  have hzeros : (List.replicate 28 0 : List Byte) =
      (List.replicate 6 0).flatMap bytesLE ++ List.replicate 4 0 := rfl
  have hfields := writeFields_eq [headerMagic, headerVersion, args.payload.length,
    crc32 args.payload, JsNumber.ushr args.softwareVersion 0,
    JsNumber.ushr (args.buildId.getD (crc32 args.payload)) 0, slot.vectorAddress,
    (wordLE args.payload 4).toNat, JsNumber.ushr (args.flags.getD 0) 0] [] (List.replicate 28 0) 0 rfl
  rw [hzeros, ← List.append_assoc (List.flatMap bytesLE _), ← List.flatMap_append, hwords] at hfields
  exact hfields

theorem buildHeader_eq {args : PackArgs} {slot : SlotEntry} (h : 8 ≤ args.payload.length) :
    buildHeader args slot = .ok ⟨(headerWords args slot).flatMap bytesLE, args.payload.length,
      crc32 args.payload, (wordLE args.payload 0).toNat, (wordLE args.payload 4).toNat⟩ := by
  have hlength := length_fieldBytes args slot
  have hcrc : crc32 (subarray ((fieldWords args slot).flatMap bytesLE ++ List.replicate 4 0) 0
      headerCrcLength) =
      (BootCrc32.calculate (byteAt ((fieldWords args slot).flatMap bytesLE)) headerCrcLength).toNat := by
    rw [← hlength, subarray_zero, crc32_eq]
  have hwrite := writeUInt32_eq ((fieldWords args slot).flatMap bytesLE) []
    (BootCrc32.calculate (byteAt ((fieldWords args slot).flatMap bytesLE)) headerCrcLength)
    (List.length_replicate (n := 4) (a := 0))
  have hheader : (headerWords args slot).flatMap bytesLE = (fieldWords args slot).flatMap bytesLE ++
      (bytesLE (BootCrc32.calculate (byteAt ((fieldWords args slot).flatMap bytesLE))
        headerCrcLength) ++ []) := by
    unfold headerWords
    rw [List.flatMap_append, List.flatMap_cons, List.flatMap_nil]
  rw [List.append_nil, hlength, ← hcrc, ← hheader] at hwrite
  unfold buildHeader
  rw [readUInt32_eq (by omega), readUInt32_eq (by omega), Except.ok_bind, Except.ok_bind]
  dsimp only
  rw [writeFields_replicate, Except.ok_bind, show (60 : Nat) = headerCrcLength from rfl, hwrite,
    Except.ok_bind]
  rfl

/-! ## What the packer accepts -/

/-- A payload of a slot, by its length and its two vectors. -/
structure Accepted (slot : SlotEntry) (length : Nat) (msp reset : Word) : Prop where
  size_ge : 8 ≤ length
  size_le : length ≤ slot.payloadEndAddress - slot.vectorAddress
  msp_ge : sramStart ≤ msp.toNat
  msp_le : msp.toNat ≤ sramEnd
  aligned : msp &&& 7 = 0
  thumb : reset &&& 1 ≠ 0
  reset_ge : slot.vectorAddress ≤ (reset &&& ~~~1).toNat
  reset_lt : (reset &&& ~~~1).toNat < slot.vectorAddress + length

theorem resetAddress_eq (w : Word) : resetAddress w.toNat = (w &&& ~~~1).toNat := by
  unfold resetAddress JsNumber.and
  rw [JsNumber.ushr_zero, JsNumber.bits_toInt, JsNumber.bits_toNat]
  rfl

theorem and_eq_zero_iff {w : Word} {n : Nat} :
    JsNumber.and w.toNat n = 0 ↔ w &&& BitVec.ofNat 32 n = 0 := by
  unfold JsNumber.and
  rw [JsNumber.toInt_eq_zero, JsNumber.bits_toNat, JsNumber.bits_natCast]

/-- The two checks of the vectors, as the packer and its validator make them. -/
theorem vectors_refused_iff {slot : SlotEntry} {length : Nat} {msp reset : Word} (h8 : 8 ≤ length)
    (hle : length ≤ slot.payloadEndAddress - slot.vectorAddress) :
    Accepted slot length msp reset ↔
      ¬ (msp.toNat < sramStart ∨ sramEnd < msp.toNat ∨ JsNumber.and msp.toNat 7 ≠ 0) ∧
      ¬ (JsNumber.and reset.toNat 1 = 0 ∨ resetAddress reset.toNat < slot.vectorAddress ∨
        slot.vectorAddress + length ≤ resetAddress reset.toNat) := by
  have h7 : JsNumber.and msp.toNat 7 = 0 ↔ msp &&& 7 = 0 := and_eq_zero_iff (n := 7)
  have h1 : JsNumber.and reset.toNat 1 = 0 ↔ reset &&& 1 = 0 := and_eq_zero_iff (n := 1)
  rw [not_or, not_or, not_or, not_or, not_lt, not_lt, not_not, not_lt, not_le, h7, h1,
    resetAddress_eq]
  constructor
  · exact fun h => ⟨⟨h.msp_ge, h.msp_le, h.aligned⟩, h.thumb, h.reset_ge, h.reset_lt⟩
  · exact fun ⟨⟨hge, hle', ha⟩, ht, hr, hr'⟩ => ⟨h8, hle, hge, hle', ha, ht, hr, hr'⟩

theorem validatePayloadForSlot_iff {payload : List Byte} {slot : SlotEntry} :
    validatePayloadForSlot payload slot = .ok () ↔
      Accepted slot payload.length (wordLE payload 0) (wordLE payload 4) := by
  unfold validatePayloadForSlot
  dsimp only
  by_cases hsize : payload.length < 8 ∨ slot.payloadEndAddress - slot.vectorAddress < payload.length
  · rw [if_pos hsize]
    constructor
    · intro h
      cases h
    · intro h
      have := h.size_ge
      have := h.size_le
      omega
  rw [if_neg hsize, not_or, not_lt, not_lt] at *
  rw [vectors_refused_iff hsize.1 hsize.2, readUInt32_eq (by omega), readUInt32_eq (by omega)]
  simp only [Except.ok_bind]
  by_cases hmsp : (wordLE payload 0).toNat < sramStart ∨ sramEnd < (wordLE payload 0).toNat ∨
      JsNumber.and (wordLE payload 0).toNat 7 ≠ 0
  · rw [if_pos hmsp]
    constructor
    · intro h
      cases h
    · exact fun h => absurd hmsp h.1
  rw [if_neg hmsp]
  by_cases hreset : JsNumber.and (wordLE payload 4).toNat 1 = 0 ∨
      resetAddress (wordLE payload 4).toNat < slot.vectorAddress ∨
      slot.vectorAddress + payload.length ≤ resetAddress (wordLE payload 4).toNat
  · rw [if_pos hreset]
    constructor
    · intro h
      cases h
    · exact fun h => absurd hreset h.2
  rw [if_neg hreset]
  exact ⟨fun _ => ⟨hmsp, hreset⟩, fun _ => rfl⟩

/-! ## The image that is packed -/

/-- Bytes are copied over as many others. -/
theorem copy_eq {source before gap rest : List Byte} (h : gap.length = source.length) :
    copy source (before ++ (gap ++ rest)) before.length = before ++ (source ++ rest) := by
  have hroom : (before ++ (gap ++ rest)).length - before.length = source.length + rest.length := by
    rw [List.length_append, List.length_append, h]
    omega
  have hrest : (before ++ (gap ++ rest)).drop (before.length + source.length) = rest := by
    rw [← h, ← List.drop_drop, List.drop_left, List.drop_left]
  unfold copy
  rw [List.take_left, hroom, List.take_of_length_le (by omega), hrest, List.append_assoc]

def erasedBytes (n : Nat) : List Byte := List.replicate n 0xFF

/-- The offset of the header in an image. -/
def headerOffset : Nat := 0x37000

def headerOf (args : PackArgs) (s : Slot) : List Byte := (headerWords args (slots s)).flatMap bytesLE

def imageOf (args : PackArgs) (s : Slot) : List Byte :=
  args.payload ++ (erasedBytes (headerOffset - args.payload.length) ++
    (headerOf args s ++ erasedBytes (0x1000 - headerSize)))

def packedOf (args : PackArgs) (s : Slot) : Packed where
  header := headerOf args s
  imageSize := args.payload.length
  imageCrc := crc32 args.payload
  initialMsp := (wordLE args.payload 0).toNat
  entryAddress := (wordLE args.payload 4).toNat
  image := imageOf args s
  slot := s

theorem length_headerOf (args : PackArgs) (s : Slot) : (headerOf args s).length = headerSize := by
  unfold headerOf
  rw [length_flatMap]
  rfl

/-- The payload and the header are copied into an erased image. -/
theorem copy_image {args : PackArgs} {s : Slot} (h : args.payload.length ≤ headerOffset) :
    copy (headerOf args s) (copy args.payload (List.replicate (slots s).size 0xFF)
      ((slots s).vectorAddress - (slots s).baseAddress))
      ((slots s).headerAddress - (slots s).baseAddress) = imageOf args s := by
  have hsize : (slots s).size = args.payload.length +
      ((headerOffset - args.payload.length) + (headerSize + (0x1000 - headerSize))) := by
    have hall : (slots s).size = 0x38000 := by cases s <;> rfl
    have hhdr : headerOffset = 0x37000 := rfl
    have h64 : headerSize = 64 := rfl
    omega
  have hvector : (slots s).vectorAddress - (slots s).baseAddress = 0 := by
    cases s <;> exact Nat.sub_self _
  have hheader : (slots s).headerAddress - (slots s).baseAddress =
      (args.payload ++ erasedBytes (headerOffset - args.payload.length)).length := by
    have hoffset : (slots s).headerAddress - (slots s).baseAddress = headerOffset := by
      cases s <;> decide
    rw [hoffset, List.length_append, erasedBytes, List.length_replicate]
    omega
  have hpayload : copy args.payload (List.replicate (slots s).size 0xFF) 0 = args.payload ++
      (erasedBytes (headerOffset - args.payload.length) ++
        (erasedBytes headerSize ++ erasedBytes (0x1000 - headerSize))) := by
    rw [hsize, ← List.replicate_append_replicate, ← List.replicate_append_replicate,
      ← List.replicate_append_replicate]
    exact @copy_eq args.payload [] _ _ List.length_replicate
  rw [hvector, hpayload, hheader, ← List.append_assoc args.payload, copy_eq,
    List.append_assoc]
  · rfl
  · rw [length_headerOf]
    exact List.length_replicate

/-- The packer accepts a slot that there is and a payload that fits it, and no other. -/
theorem packImage_iff {args : PackArgs} {packed : Packed} :
    packImage args = .ok packed ↔ ∃ s, args.slot.resolve = .ok s ∧
      Accepted (slots s) args.payload.length (wordLE args.payload 0) (wordLE args.payload 4) ∧
      packed = packedOf args s := by
  unfold packImage
  cases hs : args.slot.resolve with
  | error e =>
    constructor
    · intro h
      cases h
    · rintro ⟨s, h, -⟩
      cases h
  | ok s =>
    rw [Except.ok_bind]
    dsimp only
    have hrest : Accepted (slots s) args.payload.length (wordLE args.payload 0)
        (wordLE args.payload 4) → (buildHeader args (slots s) >>= fun built =>
          (pure { built with
            image := copy built.header (copy args.payload (List.replicate (slots s).size 0xFF)
              ((slots s).vectorAddress - (slots s).baseAddress))
              ((slots s).headerAddress - (slots s).baseAddress)
            slot := s } : Except Thrown Packed)) = .ok (packedOf args s) := by
      intro ha
      have hle : args.payload.length ≤ headerOffset :=
        Nat.le_trans ha.size_le (by cases s <;> decide)
      rw [buildHeader_eq ha.size_ge, Except.ok_bind]
      dsimp only
      rw [show (headerWords args (slots s)).flatMap bytesLE = headerOf args s from rfl,
        copy_image hle]
      rfl
    cases hv : validatePayloadForSlot args.payload (slots s) with
    | error e =>
      constructor
      · intro h
        cases h
      · rintro ⟨s', h, ha, -⟩
        cases h
        rw [validatePayloadForSlot_iff.2 ha] at hv
        cases hv
    | ok u =>
      have ha := validatePayloadForSlot_iff.1 hv
      rw [Except.ok_bind, hrest ha]
      constructor
      · intro h
        cases h
        exact ⟨s, rfl, ha, rfl⟩
      · rintro ⟨s', h, -, rfl⟩
        cases h
        rfl

/-! ## What is found in it -/

variable {args : PackArgs} {s : Slot}

theorem length_erasedBytes (n : Nat) : (erasedBytes n).length = n := List.length_replicate

theorem length_beforeHeader (h : args.payload.length ≤ headerOffset) :
    (args.payload ++ erasedBytes (headerOffset - args.payload.length)).length = headerOffset := by
  rw [List.length_append, length_erasedBytes]
  omega

theorem imageOf_split : imageOf args s =
    (args.payload ++ erasedBytes (headerOffset - args.payload.length)) ++
      (headerOf args s ++ erasedBytes (0x1000 - headerSize)) := (List.append_assoc _ _ _).symm

theorem length_imageOf (h : args.payload.length ≤ headerOffset) :
    (imageOf args s).length = 0x38000 := by
  rw [imageOf_split, List.length_append, length_beforeHeader h, List.length_append, length_headerOf,
    length_erasedBytes]
  rfl

theorem take_imageOf : (imageOf args s).take args.payload.length = args.payload := List.take_left

theorem drop_imageOf (h : args.payload.length ≤ headerOffset) :
    (imageOf args s).drop headerOffset = headerOf args s ++ erasedBytes (0x1000 - headerSize) := by
  rw [imageOf_split, List.drop_left' (length_beforeHeader h)]

theorem subarray_header (h : args.payload.length ≤ headerOffset) :
    subarray (imageOf args s) headerOffset (headerOffset + headerSize) = headerOf args s := by
  unfold subarray
  rw [drop_imageOf h, Nat.add_sub_cancel_left, ← length_headerOf args s, List.take_left]

theorem drop_header (h : args.payload.length ≤ headerOffset) :
    (imageOf args s).drop (headerOffset + headerSize) = erasedBytes (0x1000 - headerSize) := by
  rw [← List.drop_drop, drop_imageOf h, ← length_headerOf args s, List.drop_left]

theorem byteAt_payload {i : Nat} (hi : i < args.payload.length) :
    byteAt (imageOf args s) i = byteAt args.payload i := byteAt_append_left hi

theorem byteAt_header (h : args.payload.length ≤ headerOffset) {i : Nat} (hi : i < headerSize) :
    byteAt (imageOf args s) (headerOffset + i) = byteAt (headerOf args s) i := by
  have hright := @byteAt_append_right
    (args.payload ++ erasedBytes (headerOffset - args.payload.length))
    (headerOf args s ++ erasedBytes (0x1000 - headerSize)) i
  rw [length_beforeHeader h, ← imageOf_split] at hright
  rw [hright]
  exact byteAt_append_left (by rwa [length_headerOf])

theorem wordLE_payload {offset : Nat} (h : offset + 4 ≤ args.payload.length) :
    wordLE (imageOf args s) offset = wordLE args.payload offset := by
  unfold wordLE
  exact Words.wordOf_congr fun i _ hi => byteAt_payload (by omega)

theorem wordLE_header {k : Nat} (hk : k < 16) :
    wordLE (headerOf args s) (4 * k) = (headerWords args (slots s)).getD k 0 := by
  have hword := @wordLE_flatMap (headerWords args (slots s)) k hk []
  rwa [List.append_nil] at hword

/-- The header as the bootloader sees it. -/
def packedHeader (args : PackArgs) (s : Slot) : BootImageHeader :=
  .ofWords fun k => (headerWords args (slots s)).getD k 0

theorem ofBytes_headerOf : BootImageHeader.ofBytes (byteAt (headerOf args s)) = packedHeader args s := by
  have hwords : ∀ k, k < 16 → Words.wordOf (byteAt (headerOf args s)) k =
      (headerWords args (slots s)).getD k 0 := by
    intro k hk
    rw [← wordLE_header hk]
    unfold wordLE Words.wordOf
    rfl
  unfold BootImageHeader.ofBytes packedHeader BootImageHeader.ofWords
  simp only [hwords, Nat.reduceLT]

/-- The checksum of the header covers what is before it. -/
theorem crc_headerOf : BootCrc32.calculate (byteAt (headerOf args s)) headerCrcLength =
    (packedHeader args s).headerCrc32 := by
  have hsplit : headerOf args s = (fieldWords args (slots s)).flatMap bytesLE ++
      (bytesLE (packedHeader args s).headerCrc32) := by
    unfold headerOf headerWords
    rw [List.flatMap_append, List.flatMap_cons, List.flatMap_nil, List.append_nil]
    rfl
  rw [hsplit]
  apply BootCrc32.calculate_congr
  intro i hi
  exact byteAt_append_left (by rwa [length_fieldBytes])

theorem calculate_take {b : List Byte} {n : Nat} (h : n ≤ b.length) :
    BootCrc32.calculate (byteAt (b.take n)) (b.take n).length = BootCrc32.calculate (byteAt b) n := by
  rw [List.length_take, Nat.min_eq_left h]
  apply BootCrc32.calculate_congr
  intro i hi
  unfold byteAt
  rw [List.getD_eq_getElem?_getD, List.getD_eq_getElem?_getD, List.getElem?_take_of_lt hi]

theorem crc32_header : crc32 ((headerOf args s).take headerCrcLength) =
    (packedHeader args s).headerCrc32.toNat := by
  have hroom : headerCrcLength ≤ (headerOf args s).length := by
    rw [length_headerOf]
    decide
  rw [crc32_eq, calculate_take hroom, crc_headerOf]

theorem toNat_imageSize (h : args.payload.length ≤ headerOffset) :
    (packedHeader args s).imageSize.toNat = args.payload.length := by
  show (BitVec.ofNat 32 args.payload.length).toNat = args.payload.length
  unfold headerOffset at h
  rw [BitVec.toNat_ofNat]
  exact Nat.mod_eq_of_lt (by omega)

/-! ## The validator of the packer -/

/-- The header as the packer's validator reads it; both slots have it at the same offset. -/
def readBack (args : PackArgs) (s : Slot) : Header :=
  let values (k : Nat) : Nat := ((headerWords args (slots s)).getD k 0).toNat
  ⟨headerOf args s, values 0, values 1, values 2, values 3, values 4, values 5, values 6, values 7,
    values 8, values 15⟩

theorem readHeader_imageOf (h : args.payload.length ≤ headerOffset) (t : Slot) :
    readHeader (imageOf args s) (slots t) = .ok (readBack args s) := by
  have hoffset : (slots t).headerAddress - (slots t).baseAddress = headerOffset := by
    cases t <;> decide
  have hsize : (slots t).size = 0x38000 := by cases t <;> rfl
  unfold readHeader
  rw [if_neg (not_not.2 ((length_imageOf h).trans hsize.symm)), hoffset, subarray_header h]
  dsimp only
  rw [wordLE_header (by decide), wordLE_header (by decide), wordLE_header (by decide),
    wordLE_header (by decide), wordLE_header (by decide), wordLE_header (by decide),
    wordLE_header (by decide), wordLE_header (by decide), wordLE_header (by decide),
    wordLE_header (by decide)]
  rfl

theorem validatePackedImage_imageOf {value : SlotValue} {t : Slot} (ht : value.resolve = .ok t)
    (ha : Accepted (slots s) args.payload.length (wordLE args.payload 0) (wordLE args.payload 4)) :
    validatePackedImage (imageOf args s) value = .ok (if t = s then .valid else .errVector) := by
  have hle : args.payload.length ≤ headerOffset := Nat.le_trans ha.size_le (by cases s <;> decide)
  have hge := ha.size_ge
  have hsize : (readBack args s).imageSize = args.payload.length := @toNat_imageSize args s hle
  have hroom : ¬ ((readBack args s).imageSize = 0 ∨
      (slots t).payloadEndAddress - (slots t).vectorAddress < (readBack args s).imageSize) := by
    have hmax : (slots t).payloadEndAddress - (slots t).vectorAddress = headerOffset := by
      cases t <;> decide
    rw [hsize, hmax]
    omega
  have hcrc : crc32 (subarray (readBack args s).raw 0 headerCrcLength) =
      (readBack args s).headerCrc32 := crc32_header
  have hmagic : (readBack args s).magic = headerMagic := rfl
  have hversion : (readBack args s).headerVersion = headerVersion := rfl
  have hvector : (readBack args s).vectorAddress = (slots s).vectorAddress := by cases s <;> rfl
  unfold validatePackedImage
  rw [ht, Except.ok_bind]
  dsimp only
  rw [readHeader_imageOf hle]
  dsimp only
  rw [if_neg (not_not.2 hmagic), if_neg (not_not.2 hversion), if_neg hroom,
    if_neg (not_not.2 hcrc), hvector, hsize]
  by_cases hts : t = s
  · -- the payload is checked as it was packed
    have hrange : containsRange (slots s) (slots s).vectorAddress 8 = true := by cases s <;> decide
    have hpayload : subarray (imageOf args s) 0 args.payload.length = args.payload := take_imageOf
    have hentry : (readBack args s).entryAddress = (wordLE args.payload 4).toNat := rfl
    have himage : crc32 args.payload = (readBack args s).imageCrc32 := crc32_eq args.payload
    obtain ⟨hmsp, hreset⟩ := (vectors_refused_iff hge ha.size_le).1 ha
    rw [hts, if_neg (by rw [hrange]; simp), hpayload, readUInt32_eq (by omega), readUInt32_eq (by omega),
      Except.ok_bind, Except.ok_bind, if_neg hmsp, if_neg hreset, if_neg (not_not.2 hentry),
      if_neg (not_not.2 himage), if_pos rfl]
    rfl
  · have hother : (slots s).vectorAddress ≠ (slots t).vectorAddress := by
      rw [Slot.eq_other_of_ne hts]
      cases s <;> decide
    rw [if_pos (.inl hother), if_neg hts]
    rfl

/-! ## The reader of the gateway -/

theorem binascii_eq (data : List Byte) :
    Binascii.crc32 data &&& 0xFFFFFFFF = (BootCrc32.calculate (byteAt data) data.length).toNat := by
  have hmask := Nat.and_two_pow_sub_one_eq_mod (Binascii.crc32 data) 32
  rw [show (0xFFFFFFFF : Nat) = 2 ^ 32 - 1 from rfl, hmask]
  exact Nat.mod_eq_of_lt (BitVec.isLt _)

/-- Clearing the low bit. -/
theorem toNat_clear (w : Word) : w.toNat / 2 * 2 = (w &&& ~~~1).toNat := by
  have hhigh : w.toNat / 2 * 2 = ((w >>> 1) <<< 1).toNat := by
    rw [BitVec.toNat_shiftLeft, BitVec.toNat_ushiftRight, Nat.shiftRight_eq_div_pow,
      Nat.shiftLeft_eq]
    have := w.isLt
    omega
  rw [hhigh]
  congr 1
  apply BitVec.eq_of_getLsbD_eq
  intro i hi
  cases i with
  | zero => simp
  | succ i =>
    have hone : (~~~1#32).getLsbD (i + 1) = true := by
      rw [BitVec.getLsbD_not, BitVec.getLsbD_one]
      simp [hi]
    show _ = (w &&& ~~~1#32).getLsbD (i + 1)
    rw [BitVec.getLsbD_and, hone, BitVec.getLsbD_shiftLeft, BitVec.getLsbD_ushiftRight]
    simp [hi, Nat.add_comm 1 i]

theorem and_seven {w : Word} (h : w &&& 7 = 0) : w.toNat % 8 = 0 := by
  have hmod := Nat.and_two_pow_sub_one_eq_mod w.toNat 3
  rw [← show w.toNat &&& 7 = w.toNat % 8 from hmod]
  exact congrArg BitVec.toNat h

theorem and_one {w : Word} (h : w &&& 1 ≠ 0) : w.toNat &&& 1 ≠ 0 :=
  fun h0 => h (BitVec.eq_of_toNat_eq h0)

theorem idxOf_slotBases (s : Slot) : PackedImage.slotBases.idxOf (slots s).vectorAddress =
    (slots s).id := by
  cases s <;> decide

/-- What the gateway accepts, by the fields of the header. -/
theorem parse_of_fields {data : List Byte} {h : BootImageHeader} {t : Slot} {msp reset : Word}
    (hlength : data.length = PackedImage.slotSize)
    (hfields : ∀ k, k < 16 → wordLE (subarray data PackedImage.headerOffset
      (PackedImage.headerOffset + 64)) (4 * k) = h.words k)
    (hmsp : wordLE data 0 = msp) (hreset : wordLE data 4 = reset)
    (hmagic : h.magic.toNat = 0x42493256) (hformat : h.headerVersion.toNat = 1)
    (hchecked : Binascii.crc32 ((subarray data PackedImage.headerOffset
      (PackedImage.headerOffset + 64)).take 60) &&& 0xFFFFFFFF = h.headerCrc32.toNat)
    (hvector : h.vectorAddress.toNat = (slots t).vectorAddress) (hentry : h.entryAddress = reset)
    (ha : Accepted (slots t) h.imageSize.toNat msp reset)
    (hpayload : Binascii.crc32 (data.take h.imageSize.toNat) &&& 0xFFFFFFFF = h.imageCrc32.toNat)
    (htail : (data.drop (PackedImage.headerOffset + 64)).any (· ≠ 255) = false) :
    PackedImage.parse data = .ok ⟨data, (slots t).id, h.softwareVersion.toNat, h.imageSize.toNat,
      h.imageCrc32.toNat, h.buildId.toNat⟩ := by
  have hstart : ¬ (h.magic.toNat ≠ 0x42493256 ∨ h.headerVersion.toNat ≠ 1) := by
    rw [hmagic, hformat]
    simp
  have hsize : ¬ ¬ (8 ≤ h.imageSize.toNat ∧ h.imageSize.toNat ≤ PackedImage.headerOffset) :=
    not_not.2 ⟨ha.size_ge, Nat.le_trans ha.size_le (by cases t <;> decide)⟩
  have hbase : PackedImage.slotBases.contains (slots t).vectorAddress = true := by
    cases t <;> decide
  have hstack : ¬ (¬ (0x1FFF8000 ≤ msp.toNat ∧ msp.toNat ≤ 0x20006FF0) ∨ msp.toNat % 8 ≠ 0) := by
    rw [not_or, not_not, not_not]
    exact ⟨⟨ha.msp_ge, ha.msp_le⟩, and_seven ha.aligned⟩
  have hhandler : ¬ (reset.toNat &&& 1 = 0 ∨ ¬ ((slots t).vectorAddress ≤ reset.toNat / 2 * 2 ∧
      reset.toNat / 2 * 2 < (slots t).vectorAddress + h.imageSize.toNat) ∨
      h.entryAddress.toNat ≠ reset.toNat) := by
    rw [not_or, not_or, not_not, not_not, toNat_clear, hentry]
    exact ⟨and_one ha.thumb, ⟨ha.reset_ge, ha.reset_lt⟩, rfl⟩
  have h0 : wordLE _ (4 * 0) = h.magic := hfields 0 (by decide)
  have h1 : wordLE _ (4 * 1) = h.headerVersion := hfields 1 (by decide)
  have h2 : wordLE _ (4 * 2) = h.imageSize := hfields 2 (by decide)
  have h3 : wordLE _ (4 * 3) = h.imageCrc32 := hfields 3 (by decide)
  have h4 : wordLE _ (4 * 4) = h.softwareVersion := hfields 4 (by decide)
  have h5 : wordLE _ (4 * 5) = h.buildId := hfields 5 (by decide)
  have h6 : wordLE _ (4 * 6) = h.vectorAddress := hfields 6 (by decide)
  have h7 : wordLE _ (4 * 7) = h.entryAddress := hfields 7 (by decide)
  have h15 : wordLE _ (4 * 15) = h.headerCrc32 := hfields 15 (by decide)
  unfold PackedImage.parse
  dsimp only
  simp only [-Nat.reduceMul, hmsp, hreset, h0, h1, h2, h3, h4, h5, h6, h7, h15]
  rw [if_neg (not_not.2 hlength), hvector, idxOf_slotBases, if_neg hstart,
    if_neg (not_not.2 hchecked), if_neg hsize, if_neg (not_not.2 hbase), if_neg hstack,
    if_neg hhandler, if_neg (not_not.2 hpayload), htail, if_neg Bool.false_ne_true]

theorem parse_imageOf
    (ha : Accepted (slots s) args.payload.length (wordLE args.payload 0) (wordLE args.payload 4)) :
    PackedImage.parse (imageOf args s) = .ok ⟨imageOf args s, (slots s).id,
      (packedHeader args s).softwareVersion.toNat, (packedHeader args s).imageSize.toNat,
      (packedHeader args s).imageCrc32.toNat, (packedHeader args s).buildId.toNat⟩ := by
  have hle : args.payload.length ≤ headerOffset := Nat.le_trans ha.size_le (by cases s <;> decide)
  have hge := ha.size_ge
  have hsize := @toNat_imageSize args s hle
  have hheader : subarray (imageOf args s) PackedImage.headerOffset (PackedImage.headerOffset + 64) =
      headerOf args s := subarray_header hle
  apply parse_of_fields (length_imageOf hle)
  · intro k hk
    rw [hheader, wordLE_header hk, packedHeader, BootImageHeader.words_ofWords _ hk]
  · exact wordLE_payload (by omega)
  · exact wordLE_payload (by omega)
  · rfl
  · rfl
  · rw [hheader, binascii_eq, ← crc32_eq]
    exact crc32_header
  · cases s <;> rfl
  · rfl
  · rw [hsize]
    exact ha
  · rw [hsize, take_imageOf, binascii_eq]
    rfl
  · rw [show PackedImage.headerOffset + 64 = headerOffset + headerSize from rfl, drop_header hle]
    simp [erasedBytes]

/-! ## The bootloader -/

/-- Flash with the image at the base of a slot. -/
def flashed (t : Slot) (image : List Byte) (mem : Nat → Byte) : Nat → Byte :=
  NorFlash.place t.base image.length (byteAt image) mem

variable {t : Slot} {mem : Nat → Byte}

theorem flashed_eq (h : args.payload.length ≤ headerOffset) {i : Nat} (hi : i < 0x38000) :
    flashed t (imageOf args s) mem (t.base + i) = byteAt (imageOf args s) i :=
  NorFlash.place_inside (by rwa [length_imageOf h])

theorem headerOf_flashed (h : args.payload.length ≤ headerOffset) :
    BootImage.headerOf (flashed t (imageOf args s) mem) t = packedHeader args s := by
  rw [← ofBytes_headerOf]
  apply BootImageHeader.ofBytes_congr
  intro i hi
  have hi' : i < headerSize := hi
  have hat : t.header + i = t.base + (headerOffset + i) := by
    rw [t.header_eq]
    exact Nat.add_assoc _ _ _
  have hin : headerOffset + i < 0x38000 := by
    have hlt : i < 64 := hi'
    unfold headerOffset
    omega
  rw [hat, flashed_eq h hin, byteAt_header h hi']

theorem readWord_flashed (h : args.payload.length ≤ headerOffset) {offset : Nat}
    (hi : offset + 4 ≤ args.payload.length) :
    readWord (flashed t (imageOf args s) mem) (t.base + offset) = wordLE args.payload offset := by
  apply Words.wordOf_congr
  intro i _ hlt
  have hbefore : offset + i < args.payload.length := by omega
  have hin : offset + i < 0x38000 := by
    unfold headerOffset at h
    omega
  rw [Nat.add_assoc, flashed_eq h hin, byteAt_payload hbefore]

theorem stackPointerValid_of_accepted {slot : SlotEntry} {length : Nat} {msp reset : Word}
    (ha : Accepted slot length msp reset) : stackPointerValid msp = true := by
  have hge := ha.msp_ge
  have hle := ha.msp_le
  unfold sramStart at hge
  unfold sramEnd at hle
  have hzero : msp ≠ 0 := by
    intro h0
    rw [h0] at hge
    exact absurd hge (by decide)
  have hones : msp ≠ 0xFFFFFFFF := by
    intro h1
    rw [h1] at hle
    exact absurd hle (by decide)
  unfold stackPointerValid sramBaseAddress sramApplicationEndAddress
  rw [beq_eq_false_iff_ne.2 hzero, beq_eq_false_iff_ne.2 hones, decide_eq_false (Nat.not_lt.2 hge),
    decide_eq_false (Nat.not_lt.2 hle), ha.aligned]
  rfl

/-- The header that is packed for a slot is the one that the bootloader wants there. -/
theorem headerValid_packedHeader
    (ha : Accepted (slots s) args.payload.length (wordLE args.payload 0) (wordLE args.payload 4)) :
    BootImage.HeaderValid s (packedHeader args s) := by
  have hle : args.payload.length ≤ headerOffset := Nat.le_trans ha.size_le (by cases s <;> decide)
  have hge := ha.size_ge
  have hsize := @toNat_imageSize args s hle
  have hcrc : BootCrc32.calculate (packedHeader args s).bytes BootImage.headerCrcLength =
      BootCrc32.calculate (byteAt (headerOf args s)) headerCrcLength := by
    rw [← ofBytes_headerOf]
    apply BootCrc32.calculate_congr
    intro i hi
    have hlt : i < 60 := hi
    exact BootImageHeader.bytes_ofBytes _ (Nat.lt_of_lt_of_le hlt (by decide))
  constructor
  · rfl
  · rfl
  · omega
  · rw [hsize, s.header_eq, Nat.add_sub_cancel_left]
    exact hle
  · rw [hcrc, crc_headerOf]
  · cases s <;> rfl

/-- The bootloader finds the image valid in the slot that it was packed for. -/
theorem loadInfo_flashed
    (ha : Accepted (slots s) args.payload.length (wordLE args.payload 0) (wordLE args.payload 4)) :
    (BootImage.loadInfo (flashed s (imageOf args s) mem) (some s)).validationResult = .valid := by
  have hle : args.payload.length ≤ headerOffset := Nat.le_trans ha.size_le (by cases s <;> decide)
  have hge := ha.size_ge
  have hsize := @toNat_imageSize args s hle
  have hbase : (slots s).vectorAddress = s.base := by cases s <;> rfl
  have hmsp := @readWord_flashed args s s mem hle 0 (by omega)
  have hreset := @readWord_flashed args s s mem hle 4 (by omega)
  rw [Nat.add_zero] at hmsp
  have hlow := ha.reset_ge
  have hhigh := ha.reset_lt
  rw [hbase] at hlow hhigh
  rw [BootImage.loadInfo_iff, headerOf_flashed hle]
  refine ⟨headerValid_packedHeader ha, ?_, ?_, ?_, ?_, ?_, ?_, ?_⟩
  · rw [hmsp]
    exact stackPointerValid_of_accepted ha
  · rw [hreset]
    intro h1
    rw [h1] at hhigh
    have : s.base ≤ 0x40000 := by cases s <;> decide
    unfold headerOffset at hle
    have hones : (0xFFFFFFFF &&& ~~~1 : Word).toNat = 0xFFFFFFFE := by decide
    omega
  · rw [hreset]
    exact ha.thumb
  · rw [hreset]
    exact hlow
  · rw [hreset, hsize]
    exact hhigh
  · rw [hreset]
    rfl
  · rw [hsize]
    have hpayload : BootCrc32.calculate (fun i => flashed s (imageOf args s) mem (s.base + i))
        args.payload.length = BootCrc32.calculate (byteAt args.payload) args.payload.length := by
      apply BootCrc32.calculate_congr
      intro i hi
      unfold headerOffset at hle
      rw [flashed_eq hle (by omega), byteAt_payload hi]
    exact hpayload

/-- In the other slot it finds the wrong vector address. -/
theorem loadInfo_flashed_other
    (ha : Accepted (slots s) args.payload.length (wordLE args.payload 0) (wordLE args.payload 4)) :
    (BootImage.loadInfo (flashed s.other (imageOf args s) mem) (some s.other)).validationResult =
      .errVector := by
  have hle : args.payload.length ≤ headerOffset := Nat.le_trans ha.size_le (by cases s <;> decide)
  have hvalid := headerValid_packedHeader ha
  have hheader := @headerOf_flashed args s s.other mem hle
  have hother := BootImage.validateHeader_other hvalid
  rw [← hheader] at hother
  rw [BootImage.loadInfo_of_validateHeader, hother]
  · rw [hheader]
    exact hvalid.magic
  · rw [hother]
    decide

/-! ## All of them -/

/-- The argument of `packImage` with numbers of 32 bits. -/
def PackArgs.of (payload : List Byte) (slot : SlotValue) (softwareVersion : Word)
    (buildId flags : Option Word) : PackArgs where
  payload := payload
  slot := slot
  softwareVersion := softwareVersion.toNat
  buildId := buildId.map fun id => id.toNat
  flags := flags.map fun bits => bits.toNat

/-- A header of the packer's validator and a header of the bootloader have the same fields. -/
structure Header.Same (header : Header) (h : BootImageHeader) : Prop where
  magic : header.magic = h.magic.toNat
  headerVersion : header.headerVersion = h.headerVersion.toNat
  imageSize : header.imageSize = h.imageSize.toNat
  imageCrc32 : header.imageCrc32 = h.imageCrc32.toNat
  softwareVersion : header.softwareVersion = h.softwareVersion.toNat
  buildId : header.buildId = h.buildId.toNat
  vectorAddress : header.vectorAddress = h.vectorAddress.toNat
  entryAddress : header.entryAddress = h.entryAddress.toNat
  flags : header.flags = h.flags.toNat
  headerCrc32 : header.headerCrc32 = h.headerCrc32.toNat

/-- The bootloader finds the packed image in a slot. -/
structure Loads (packed : Packed) (header : Header) (info : BootImageInfo) : Prop where
  result : info.validationResult = .valid
  valid : info.valid = true
  header : header.Same info.header
  initialMsp : info.initialMsp.toNat = packed.initialMsp
  resetHandler : info.resetHandler.toNat = packed.entryAddress

/-- The validators agree on what was packed for a slot, and on that it is not for the other. -/
structure Agreed (payload : List Byte) (slot : SlotValue) (softwareVersion : Word)
    (buildId flags : Option Word) (packed : Packed) (header : Header) : Prop where
  resolved : slot.resolve = .ok packed.slot
  image_length : packed.image.length = 0x38000
  image_payload : packed.image.take packed.imageSize = payload
  imageSize : packed.imageSize = payload.length
  packer : validatePackedImage packed.image slot = .ok .valid
  packer_header : readHeader packed.image (slots packed.slot) = .ok header
  packer_version : header.softwareVersion = softwareVersion.toNat
  packer_buildId : header.buildId = buildId.elim packed.imageCrc (·.toNat)
  packer_flags : header.flags = (flags.getD 0).toNat
  gateway : PackedImage.parse packed.image = .ok ⟨packed.image, (slots packed.slot).id,
    softwareVersion.toNat, packed.imageSize, packed.imageCrc, header.buildId⟩
  bootloader : ∀ mem, Loads packed header
    (BootImage.loadInfo (flashed packed.slot packed.image mem) (some packed.slot))
  packer_other : ∀ value : SlotValue, value.resolve = .ok packed.slot.other →
    validatePackedImage packed.image value = .ok .errVector
  gateway_other : ∀ image, PackedImage.parse packed.image = .ok image →
    image.slot ≠ (slots packed.slot.other).id
  bootloader_other : ∀ mem, (BootImage.loadInfo (flashed packed.slot.other packed.image mem)
    (some packed.slot.other)).validationResult = .errVector

theorem same_readBack : (readBack args s).Same (packedHeader args s) :=
  ⟨rfl, rfl, rfl, rfl, rfl, rfl, rfl, rfl, rfl, rfl⟩

theorem loads_packedOf
    (ha : Accepted (slots s) args.payload.length (wordLE args.payload 0) (wordLE args.payload 4)) :
    Loads (packedOf args s) (readBack args s)
      (BootImage.loadInfo (flashed s (imageOf args s) mem) (some s)) := by
  have hle : args.payload.length ≤ headerOffset := Nat.le_trans ha.size_le (by cases s <;> decide)
  have hge := ha.size_ge
  have hresult := @loadInfo_flashed args s mem ha
  obtain ⟨hvalid, hheader⟩ := BootImage.loadInfo_of_valid hresult
  obtain ⟨hmsp, hreset⟩ := BootImage.loadInfo_vectors hresult
  have hword := @readWord_flashed args s s mem hle 0 (by omega)
  rw [Nat.add_zero] at hword
  constructor
  · exact hresult
  · exact hvalid
  · rw [hheader, headerOf_flashed hle]
    exact same_readBack
  · rw [hmsp, hword]
    rfl
  · rw [hreset, readWord_flashed hle (by omega)]
    rfl

/-- What the packer produces for 32-bit numbers is what all three validators find in it. -/
theorem packed_agreed {payload : List Byte} {slot : SlotValue} {softwareVersion : Word}
    {buildId flags : Option Word} {packed : Packed}
    (h : packImage (.of payload slot softwareVersion buildId flags) = .ok packed) :
    ∃ header, Agreed payload slot softwareVersion buildId flags packed header := by
  obtain ⟨s, hs, ha, rfl⟩ := packImage_iff.1 h
  generalize hargs : PackArgs.of payload slot softwareVersion buildId flags = args at hs ha
  have hle : args.payload.length ≤ headerOffset := Nat.le_trans ha.size_le (by cases s <;> decide)
  have hslot : slot = args.slot := by
    rw [← hargs]
    rfl
  have hpayload : payload = args.payload := by
    rw [← hargs]
    rfl
  have hversion : (readBack args s).softwareVersion = softwareVersion.toNat := by
    rw [← hargs]
    exact congrArg BitVec.toNat (JsNumber.bits_toNat softwareVersion)
  have hid : (readBack args s).buildId = buildId.elim (crc32 args.payload) (·.toNat) := by
    rw [← hargs]
    cases buildId with
    | none => exact (crc32_eq payload).symm
    | some id => exact congrArg BitVec.toNat (JsNumber.bits_toNat id)
  have hflags : (readBack args s).flags = (flags.getD 0).toNat := by
    rw [← hargs]
    cases flags with
    | none => rfl
    | some bits => exact congrArg BitVec.toNat (JsNumber.bits_toNat bits)
  have hparse := parse_imageOf ha
  rw [toNat_imageSize hle] at hparse
  refine ⟨readBack args s, ?_⟩
  constructor
  · rw [hslot]
    exact hs
  · exact length_imageOf hle
  · rw [hpayload]
    exact take_imageOf
  · rw [hpayload]
    rfl
  · rw [hslot]
    have hpacker := validatePackedImage_imageOf hs ha
    rwa [if_pos rfl] at hpacker
  · exact readHeader_imageOf hle s
  · exact hversion
  · exact hid
  · exact hflags
  · rw [← hversion]
    have hcrc : (packedHeader args s).imageCrc32.toNat = crc32 args.payload :=
      (crc32_eq args.payload).symm
    rw [hcrc] at hparse
    exact hparse
  · exact fun mem => loads_packedOf ha
  · intro value hvalue
    have hpacker := validatePackedImage_imageOf hvalue ha
    rw [if_neg (show (packedOf args s).slot.other ≠ s from s.other_ne)] at hpacker
    exact hpacker
  · intro image himage
    rw [show (packedOf args s).image = imageOf args s from rfl, hparse] at himage
    cases himage
    show (slots s).id ≠ (slots s.other).id
    cases s <;> decide
  · exact fun mem => loadInfo_flashed_other ha

/-- The shortest program, packed for slot B by its name. -/
def shortestPayload : List Byte := bytesLE 0x20006FF0 ++ bytesLE 0x00040007

theorem packed_agreed_shortest : ∃ header, Agreed shortestPayload (.name "b") 0xFFFFFFFF none
    (some 0x80000000) (packedOf (.of shortestPayload (.name "b") 0xFFFFFFFF none
      (some 0x80000000)) .b) header :=
  packed_agreed (packImage_iff.2 ⟨.b, by decide +kernel, by constructor <;> decide, rfl⟩)

end ImageFormat
