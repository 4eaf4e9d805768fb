import Mathlib.Tactic.Common

/-!
# Cyclic redundancy checks

A reflected check takes the bits of a message one after another into a register.  A step of the
register is linear and, as the polynomial has its top bit, one to one.  So as many bits as the
register is wide can be read back from it, and a damage that is no longer than that changes it.
-/

namespace Crc

variable {w : Nat} (poly : BitVec w)

/-- One step of the register. -/
def shift (c : BitVec w) : BitVec w := if c.getLsbD 0 then (c >>> 1) ^^^ poly else c >>> 1

/-- `n` steps of the register. -/
def shifts (n : Nat) (c : BitVec w) : BitVec w := Nat.repeat (shift poly) n c

/-- The word of the `k` bits of a message from bit `n` on. -/
def block (m : Nat → Bool) (n : Nat) : Nat → BitVec w
  | 0 => 0
  | k + 1 => block m n k ^^^ (BitVec.ofBool (m (n + k))).setWidth w <<< k

/-- The register after `n` bits of a message. -/
def register (start : BitVec w) (m : Nat → Bool) : Nat → BitVec w
  | 0 => start
  | n + 1 => shift poly (register start m n ^^^ (BitVec.ofBool (m n)).setWidth w)

/-! ## Steps of the register -/

variable {poly}

theorem shift_xor (a b : BitVec w) : shift poly (a ^^^ b) = shift poly a ^^^ shift poly b := by
  unfold shift
  rw [BitVec.getLsbD_xor, BitVec.ushiftRight_xor_distrib]
  cases ha : a.getLsbD 0 <;> cases hb : b.getLsbD 0
  · rfl
  · exact BitVec.xor_assoc ..
  · show a >>> 1 ^^^ b >>> 1 ^^^ poly = a >>> 1 ^^^ poly ^^^ b >>> 1
    rw [BitVec.xor_assoc, BitVec.xor_comm (b >>> 1), BitVec.xor_assoc]
  · show a >>> 1 ^^^ b >>> 1 = a >>> 1 ^^^ poly ^^^ (b >>> 1 ^^^ poly)
    rw [BitVec.xor_comm (b >>> 1) poly, ← BitVec.xor_assoc (a >>> 1 ^^^ poly),
      BitVec.xor_assoc (a >>> 1) poly poly, BitVec.xor_self, BitVec.xor_zero]

/-- The bit that leaves the register at the bottom shows at its top. -/
theorem msb_shift (hp : poly.msb = true) (c : BitVec w) :
    (shift poly c).msb = c.getLsbD 0 := by
  have hlow : (c >>> 1).msb = false := by
    rw [BitVec.msb_ushiftRight]
    rfl
  unfold shift
  cases h : c.getLsbD 0
  · exact hlow
  · show (c >>> 1 ^^^ poly).msb = true
    rw [BitVec.msb_xor, hlow, hp]
    rfl

theorem eq_zero_of_shift (hp : poly.msb = true) {c : BitVec w} (h : shift poly c = 0) : c = 0 := by
  have hlow : c.getLsbD 0 = false := by
    rw [← msb_shift hp, h]
    exact BitVec.msb_zero
  unfold shift at h
  rw [if_neg (by simp [hlow])] at h
  apply BitVec.eq_of_getLsbD_eq
  intro i _
  show c.getLsbD i = (0#w).getLsbD i
  rw [BitVec.getLsbD_zero]
  cases i with
  | zero => exact hlow
  | succ i =>
    have hi := congrArg (fun v : BitVec w => v.getLsbD i) h
    simpa [Nat.add_comm 1 i] using hi

theorem shift_injective (hp : poly.msb = true) : Function.Injective (shift poly) := by
  intro a b h
  have hzero : shift poly (a ^^^ b) = 0 := by
    rw [shift_xor, h]
    exact BitVec.xor_self
  exact BitVec.xor_eq_zero_iff.1 (eq_zero_of_shift hp hzero)

theorem shifts_succ (n : Nat) (c : BitVec w) :
    shifts poly (n + 1) c = shift poly (shifts poly n c) := rfl

theorem shifts_xor (n : Nat) (a b : BitVec w) :
    shifts poly n (a ^^^ b) = shifts poly n a ^^^ shifts poly n b := by
  induction n with
  | zero => rfl
  | succ n ih => rw [shifts_succ, ih, shift_xor, ← shifts_succ, ← shifts_succ]

theorem shifts_injective (hp : poly.msb = true) (n : Nat) :
    Function.Injective (shifts poly n) := by
  induction n with
  | zero => exact fun _ _ h => h
  | succ n ih => exact (shift_injective hp).comp ih

/-- A word whose top bit is clear comes back when it is moved up first. -/
theorem shift_shiftLeft {c : BitVec w} (h : c.msb = false) : shift poly (c <<< 1) = c := by
  unfold shift
  rw [if_neg (by simp)]
  apply BitVec.eq_of_getLsbD_eq
  intro i hi
  rw [BitVec.getLsbD_ushiftRight, BitVec.getLsbD_shiftLeft]
  by_cases htop : 1 + i < w
  · simp [htop]
  · have hlast : i = w - 1 := by omega
    rw [BitVec.msb_eq_getLsbD_last, ← hlast] at h
    simp [htop, h]

theorem shifts_shift (n : Nat) (c : BitVec w) :
    shifts poly (n + 1) c = shifts poly n (shift poly c) := by
  induction n with
  | zero => rfl
  | succ n ih => rw [shifts_succ, ih, shifts_succ]

/-- A bit comes down after as many steps as it is above the bottom. -/
theorem shifts_bit (b : Bool) {k : Nat} (hk : k < w) :
    shifts poly k ((BitVec.ofBool b).setWidth w <<< k) = (BitVec.ofBool b).setWidth w := by
  induction k with
  | zero => exact BitVec.shiftLeft_zero _
  | succ k ih =>
    have htop : ((BitVec.ofBool b).setWidth w <<< k).msb = false := by
      rw [BitVec.msb_eq_getLsbD_last, BitVec.getLsbD_shiftLeft, BitVec.getLsbD_setWidth,
        BitVec.getLsbD_of_ge _ (w - 1 - k) (by omega)]
      simp
    rw [shifts_shift, BitVec.shiftLeft_add, shift_shiftLeft htop]
    exact ih (by omega)

/-! ## Blocks -/

/-- As many bits as the register is wide go into it like one word. -/
theorem register_block (start : BitVec w) (m : Nat → Bool) (n : Nat) {k : Nat} (hk : k ≤ w) :
    register poly start m (n + k) = shifts poly k (register poly start m n ^^^ block m n k) := by
  induction k with
  | zero => exact (BitVec.xor_zero (x := register poly start m n)).symm
  | succ k ih =>
    have hbit := @shifts_bit w poly (m (n + k)) k (by omega)
    show shift poly (register poly start m (n + k) ^^^ _) = shift poly (shifts poly k (_ ^^^ (_ ^^^ _)))
    rw [ih (by omega), ← BitVec.xor_assoc, shifts_xor _ (register poly start m n ^^^ block m n k),
      hbit]
    rfl

theorem getLsbD_block (m : Nat → Bool) (n : Nat) {k i : Nat} (hk : k ≤ w) :
    (block m n k : BitVec w).getLsbD i = (decide (i < k) && m (n + i)) := by
  induction k with
  | zero => simp [block]
  | succ k ih =>
    rw [block, BitVec.getLsbD_xor, ih (by omega), BitVec.getLsbD_shiftLeft, BitVec.getLsbD_setWidth]
    rcases Nat.lt_trichotomy i k with hlt | rfl | hgt
    · simp [hlt, show i < k + 1 by omega]
    · simp [show i < w by omega, show 0 < w by omega]
    · rw [BitVec.getLsbD_of_ge _ (i - k) (by omega)]
      simp [show ¬ i < k by omega, show ¬ i < k + 1 by omega]

variable {start : BitVec w} {m m' : Nat → Bool} {n k : Nat}

theorem register_congr (h : ∀ i, i < n → m i = m' i) :
    register poly start m n = register poly start m' n := by
  induction n with
  | zero => rfl
  | succ n ih =>
    rw [register, register, ih fun i hi => h i (by omega), h n (by omega)]

/-- The same bits lead to the same register from the same register only. -/
theorem register_cancel (hp : poly.msb = true) (h : ∀ i, n ≤ i → i < n + k → m i = m' i)
    (heq : register poly start m (n + k) = register poly start m' (n + k)) :
    register poly start m n = register poly start m' n := by
  induction k with
  | zero => exact heq
  | succ k ih =>
    apply ih fun i hi hi' => h i hi (by omega)
    have hstep : register poly start m (n + k) ^^^ (BitVec.ofBool (m (n + k))).setWidth w =
        register poly start m' (n + k) ^^^ (BitVec.ofBool (m' (n + k))).setWidth w :=
      shift_injective hp heq
    rw [h (n + k) (by omega) (by omega)] at hstep
    exact (BitVec.xor_left_inj _).1 hstep

/-- A damage that is no longer than the register is wide shows in the register. -/
theorem eq_of_register (hp : poly.msb = true) {length : Nat}
    (hout : ∀ i, i < length → ¬ (n ≤ i ∧ i < n + w) → m i = m' i)
    (heq : register poly start m length = register poly start m' length) :
    ∀ i, i < length → m i = m' i := by
  intro i hi
  by_cases hin : n ≤ i ∧ i < n + w
  swap
  · exact hout i hi hin
  -- the part of the window that is in the message
  obtain ⟨k, rest, hk, hlength, hik, hrest⟩ : ∃ k rest, k ≤ w ∧ length = n + k + rest ∧
      i < n + k ∧ (k = w ∨ rest = 0) := by
    by_cases hend : n + w ≤ length
    · exact ⟨w, length - (n + w), Nat.le_refl w, by omega, hin.2, .inl rfl⟩
    · exact ⟨length - n, 0, by omega, by omega, by omega, .inr rfl⟩
  rw [hlength] at heq
  have hwindow : register poly start m (n + k) = register poly start m' (n + k) := by
    apply register_cancel hp (k := rest) _ heq
    intro j hj hj'
    apply hout j (by omega)
    rcases hrest with rfl | rfl <;> omega
  have hbefore : register poly start m n = register poly start m' n :=
    register_congr fun j hj => hout j (by omega) (by omega)
  rw [register_block start m n hk, register_block start m' n hk, hbefore] at hwindow
  have hblock := (BitVec.xor_right_inj _).1 (shifts_injective hp k hwindow)
  have hbit := congrArg (fun v : BitVec w => v.getLsbD (i - n)) hblock
  simp only [getLsbD_block _ _ hk] at hbit
  have hlt : i - n < k := by omega
  rw [decide_eq_true hlt, Bool.true_and, Bool.true_and, show n + (i - n) = i by omega] at hbit
  exact hbit

/-- The register after a word that was taken from the register itself does not depend on the
    message. -/
theorem register_residue (hp : poly.msb = true) (final : BitVec w) :
    register poly start m (n + w) = shifts poly w final ↔
      block m n w = register poly start m n ^^^ final := by
  rw [register_block start m n (Nat.le_refl w)]
  constructor
  · intro h
    rw [← shifts_injective hp w h, ← BitVec.xor_assoc, BitVec.xor_self, BitVec.zero_xor]
  · intro h
    rw [h, ← BitVec.xor_assoc, BitVec.xor_self, BitVec.zero_xor]

end Crc
