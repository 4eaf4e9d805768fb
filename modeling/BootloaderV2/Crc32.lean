import BootloaderV2.Lib.Words

/-!
# The two CRC-32 loops

`boot_crc32.c` and `boot_journal.c` compute the same checksum with loops written differently: the
first tests the low bit, the second turns it into a mask.
-/

namespace BootCrc32

/-- One bit of the inner loop. -/
def shift (crc : Word) : Word :=
  if crc &&& 1 ≠ 0 then (crc >>> 1) ^^^ 0xEDB88320 else crc >>> 1

/-- One byte of the outer loop. -/
def update (crc : Word) (b : Byte) : Word := Nat.repeat shift 8 (crc ^^^ b.setWidth 32)

/-- The register after the first `length` bytes. -/
def register (data : Nat → Byte) : Nat → Word
  | 0 => 0xFFFFFFFF
  | length + 1 => update (register data length) (data length)

def calculate (data : Nat → Byte) (length : Nat) : Word := register data length ^^^ 0xFFFFFFFF

theorem register_congr {data data' : Nat → Byte} {length : Nat}
    (h : ∀ i, i < length → data i = data' i) : register data length = register data' length := by
  induction length with
  | zero => rfl
  | succ n ih =>
    simp only [register]
    rw [ih fun i hi => h i (by omega), h n (by omega)]

theorem calculate_congr {data data' : Nat → Byte} {length : Nat}
    (h : ∀ i, i < length → data i = data' i) : calculate data length = calculate data' length := by
  rw [calculate, calculate, register_congr h]

end BootCrc32

namespace BootJournal

/-- One bit of the inner loop of `BootJournal_Crc`. -/
def crcShift (crc : Word) : Word := (crc >>> 1) ^^^ ((0 - (crc &&& 1)) &&& 0xEDB88320)

def crcRegister (data : Nat → Byte) : Nat → Word
  | 0 => 0xFFFFFFFF
  | length + 1 => Nat.repeat crcShift 8 (crcRegister data length ^^^ (data length).setWidth 32)

def crc (data : Nat → Byte) (length : Nat) : Word := ~~~ crcRegister data length

theorem crcShift_eq (c : Word) : crcShift c = BootCrc32.shift c := by
  unfold crcShift BootCrc32.shift
  by_cases h : c &&& 1 = 0
  · rw [if_neg (by simpa using h), h]
    simp
  · have hmod : (c &&& 1#32).toNat = c.toNat % 2 := by
      rw [BitVec.toNat_and, show (1#32).toNat = 1 from rfl, Nat.and_one_is_mod]
    have h1 : c &&& 1 = 1 := by
      apply BitVec.eq_of_toNat_eq
      have hn : (c &&& 1#32).toNat ≠ 0 := fun h0 => h (BitVec.eq_of_toNat_eq h0)
      show (c &&& 1#32).toNat = 1
      omega
    rw [if_pos h, h1]
    rfl

/-- The journal's checksum is the image checksum. -/
theorem crc_eq_calculate (data : Nat → Byte) (length : Nat) :
    crc data length = BootCrc32.calculate data length := by
  have hr : ∀ n, crcRegister data n = BootCrc32.register data n := by
    intro n
    induction n with
    | zero => rfl
    | succ n ih => simp only [crcRegister, BootCrc32.register, BootCrc32.update, ih,
        funext crcShift_eq]
  rw [crc, BootCrc32.calculate, hr]
  exact (BitVec.xor_allOnes).symm

theorem crc_congr {data data' : Nat → Byte} {length : Nat}
    (h : ∀ i, i < length → data i = data' i) : crc data length = crc data' length := by
  rw [crc_eq_calculate, crc_eq_calculate, BootCrc32.calculate_congr h]

end BootJournal
