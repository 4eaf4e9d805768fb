import Mathlib.Tactic.Common
import Mathlib.Tactic.IntervalCases

/-!
# Little-endian words in byte memory

A block of memory is a function from offsets to bytes.  `wordOf b k` reads the `k`-th 32-bit word of
a block, `byteOf ws i` is the `i`-th byte of a block that holds the words `ws`.
-/

abbrev Byte : Type := BitVec 8

abbrev Word : Type := BitVec 32

namespace Words

/-- The word of four bytes, the last one on top. -/
def joinBytes (b0 b1 b2 b3 : Byte) : Word := b3 ++ b2 ++ b1 ++ b0

/-- The `k`-th word of a block of bytes. -/
def wordOf (b : Nat → Byte) (k : Nat) : Word :=
  joinBytes (b (4 * k)) (b (4 * k + 1)) (b (4 * k + 2)) (b (4 * k + 3))

/-- The `i`-th byte of a block of words. -/
def byteOf (ws : Nat → Word) (i : Nat) : Byte := (ws (i / 4)).extractLsb' (8 * (i % 4)) 8

theorem joinBytes_extract (w : Word) :
    joinBytes (w.extractLsb' 0 8) (w.extractLsb' 8 8) (w.extractLsb' 16 8) (w.extractLsb' 24 8) =
      w := by
  apply BitVec.eq_of_getLsbD_eq
  intro i hi
  simp only [joinBytes, BitVec.getLsbD_append, BitVec.getLsbD_extractLsb']
  interval_cases i <;> simp

theorem extract_joinBytes (b : Nat → Byte) (k : Nat) (hk : k < 4) :
    (joinBytes (b 0) (b 1) (b 2) (b 3)).extractLsb' (8 * k) 8 = b k := by
  apply BitVec.eq_of_getLsbD_eq
  intro i hi
  simp only [joinBytes, BitVec.getLsbD_append, BitVec.getLsbD_extractLsb']
  interval_cases k <;> interval_cases i <;> simp

theorem wordOf_byteOf (ws : Nat → Word) (k : Nat) : wordOf (byteOf ws) k = ws k := by
  unfold wordOf byteOf
  rw [show 4 * k / 4 = k by omega, show (4 * k + 1) / 4 = k by omega,
    show (4 * k + 2) / 4 = k by omega, show (4 * k + 3) / 4 = k by omega,
    show 4 * k % 4 = 0 by omega, show (4 * k + 1) % 4 = 1 by omega,
    show (4 * k + 2) % 4 = 2 by omega, show (4 * k + 3) % 4 = 3 by omega]
  exact joinBytes_extract (ws k)

theorem byteOf_wordOf (b : Nat → Byte) (i : Nat) : byteOf (wordOf b) i = b i := by
  have hi : 4 * (i / 4) + i % 4 = i := Nat.div_add_mod i 4
  have h := extract_joinBytes (fun j => b (4 * (i / 4) + j)) (i % 4) (Nat.mod_lt i (by decide))
  simpa only [byteOf, wordOf, Nat.add_zero, hi] using h

theorem wordOf_congr {b b' : Nat → Byte} {k : Nat}
    (h : ∀ i, 4 * k ≤ i → i < 4 * k + 4 → b i = b' i) : wordOf b k = wordOf b' k := by
  unfold wordOf
  rw [h (4 * k) (by omega) (by omega), h (4 * k + 1) (by omega) (by omega),
    h (4 * k + 2) (by omega) (by omega), h (4 * k + 3) (by omega) (by omega)]

/-- The low byte of a word is its first byte in memory. -/
theorem wordOf_low (b : Nat → Byte) (k : Nat) : (wordOf b k).extractLsb' 0 8 = b (4 * k) :=
  extract_joinBytes (fun j => b (4 * k + j)) 0 (by decide)

end Words
