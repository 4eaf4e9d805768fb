import BootloaderV2.Lib.Words
import Mathlib.Data.List.GetD

/-!
# Numbers and buffers of JavaScript

A number is an integer here.  The operators on bits work on its residue modulo `2 ^ 32`: `&` and `^`
return it as a signed number, `>>>` as an unsigned one.  A buffer is a list of bytes.
-/

namespace JsNumber

/-- The 32 bits of a number. -/
def bits (x : Int) : Word := BitVec.ofInt 32 x

/-- `x & y`. -/
def and (x y : Int) : Int := (bits x &&& bits y).toInt

/-- `x ^ y`. -/
def xor (x y : Int) : Int := (bits x ^^^ bits y).toInt

/-- `x >>> n`. -/
def ushr (x : Int) (n : Nat) : Nat := (bits x >>> (n % 32)).toNat

@[simp] theorem bits_toInt (w : Word) : bits w.toInt = w := BitVec.ofInt_toInt

@[simp] theorem bits_toNat (w : Word) : bits (w.toNat : Int) = w := by
  unfold bits
  rw [BitVec.ofInt_natCast, BitVec.ofNat_toNat]
  exact BitVec.setWidth_eq w

@[simp] theorem bits_natCast (n : Nat) : bits (n : Int) = BitVec.ofNat 32 n := BitVec.ofInt_natCast 32 n

@[simp] theorem ushr_zero (x : Int) : ushr x 0 = (bits x).toNat := by
  unfold ushr
  rw [Nat.zero_mod, BitVec.ushiftRight_zero]

/-- A signed result is zero when its bits are. -/
theorem toInt_eq_zero {w : Word} : w.toInt = 0 ↔ w = 0 := by
  constructor
  · intro h
    rw [← bits_toInt w, h]
    rfl
  · intro h
    rw [h]
    rfl

end JsNumber

namespace Buffer

/-- The byte of a buffer at an offset. -/
def byteAt (b : List Byte) (i : Nat) : Byte := b.getD i 0

/-- `b.subarray(start, stop)`. -/
def subarray (b : List Byte) (start stop : Nat) : List Byte := (b.drop start).take (stop - start)

/-- `source.copy(target, start)`. -/
def copy (source target : List Byte) (start : Nat) : List Byte :=
  target.take start ++ source.take (target.length - start) ++ target.drop (start + source.length)

/-- The bytes of a word, the low one first. -/
def bytesLE (w : Word) : List Byte :=
  [w.extractLsb' 0 8, w.extractLsb' 8 8, w.extractLsb' 16 8, w.extractLsb' 24 8]

/-- The word at an offset. -/
def wordLE (b : List Byte) (offset : Nat) : Word := Words.wordOf (fun i => byteAt b (offset + i)) 0

/-- `b.readUInt32LE(offset)`, which throws outside the buffer. -/
def readUInt32LE (b : List Byte) (offset : Nat) : Option Nat :=
  if offset + 4 ≤ b.length then some (wordLE b offset).toNat else none

/-- `b.writeUInt32LE(value, offset)`, which throws outside the buffer and for other values. -/
def writeUInt32LE (b : List Byte) (value offset : Nat) : Option (List Byte) :=
  if value < 2 ^ 32 ∧ offset + 4 ≤ b.length then
    some (b.take offset ++ bytesLE (BitVec.ofNat 32 value) ++ b.drop (offset + 4))
  else none

@[simp] theorem length_bytesLE (w : Word) : (bytesLE w).length = 4 := rfl

theorem length_flatMap (ws : List Word) : (ws.flatMap bytesLE).length = 4 * ws.length := by
  induction ws with
  | nil => rfl
  | cons w ws ih =>
    rw [List.flatMap_cons, List.length_append, ih, length_bytesLE, List.length_cons]
    omega

theorem byteAt_append_left {b c : List Byte} {i : Nat} (h : i < b.length) :
    byteAt (b ++ c) i = byteAt b i := List.getD_append b c 0 i h

theorem byteAt_append_right {b c : List Byte} (i : Nat) : byteAt (b ++ c) (b.length + i) = byteAt c i := by
  unfold byteAt
  rw [List.getD_append_right b c 0 (b.length + i) (by omega), Nat.add_sub_cancel_left]

/-- A word reads back. -/
theorem wordLE_bytesLE (b c : List Byte) (w : Word) : wordLE (b ++ (bytesLE w ++ c)) b.length = w := by
  unfold wordLE Words.wordOf
  simp only [byteAt_append_right]
  exact Words.joinBytes_extract w

/-- The word at `4 * k` of a list of words. -/
theorem wordLE_flatMap {ws : List Word} {k : Nat} (h : k < ws.length) (c : List Byte) :
    wordLE (ws.flatMap bytesLE ++ c) (4 * k) = ws.getD k 0 := by
  have hsplit : ws = ws.take k ++ ws.getD k 0 :: ws.drop (k + 1) := by
    rw [List.getD_eq_getElem ws 0 h, List.getElem_cons_drop, List.take_append_drop]
  have hlength : ((ws.take k).flatMap bytesLE).length = 4 * k := by
    rw [length_flatMap, List.length_take, Nat.min_eq_left (by omega)]
  conv_lhs => rw [hsplit]
  rw [List.flatMap_append, List.flatMap_cons, List.append_assoc, List.append_assoc, ← hlength]
  exact wordLE_bytesLE _ _ _

end Buffer
