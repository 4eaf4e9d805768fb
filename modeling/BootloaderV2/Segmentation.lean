import BootloaderV2.CanTp
import Mathlib.Tactic.FinCases
import Mathlib.Tactic.Common

/-!
# The segmentation of a response

The frames of a payload, as ISO-TP has them, and that the frames which `CanTp.c` builds are these.
-/

open CanIf (CanFrame)

namespace Segmentation

/-- A frame with these bytes, filled up with zeros. -/
def frame (bytes : List Byte) : CanFrame := ⟨CanTp.udsResponseId, 8, fun j => bytes.getD j 0⟩

def single (payload : List Byte) : CanFrame := frame (BitVec.ofNat 8 payload.length :: payload)

def first (payload : List Byte) : CanFrame :=
  frame (BitVec.ofNat 8 (0x10 + payload.length / 256) :: BitVec.ofNat 8 (payload.length % 256) ::
    payload.take 6)

/-- The `n`-th consecutive frame; the first one has number 1. -/
def consecutive (payload : List Byte) (n : Nat) : CanFrame :=
  frame (BitVec.ofNat 8 (0x20 + n % 16) :: (payload.drop (7 * n - 1)).take 7)

/-- A first frame takes six bytes, and each consecutive one seven. -/
def count (payload : List Byte) : Nat := payload.length / 7

def segments (payload : List Byte) : List CanFrame :=
  if payload.length ≤ 7 then [single payload]
  else first payload :: (List.range (count payload)).map fun i => consecutive payload (i + 1)

variable {payload : List Byte} {k : Nat}

theorem segments_of_gt (h : 7 < payload.length) : segments payload =
    first payload :: (List.range (count payload)).map fun i => consecutive payload (i + 1) := by
  unfold segments
  rw [if_neg (by omega)]

theorem length_segments (h : 7 < payload.length) :
    (segments payload).length = count payload + 1 := by
  rw [segments_of_gt h, List.length_cons, List.length_map, List.length_range]

theorem take_one_segments (h : 7 < payload.length) :
    (segments payload).take 1 = [first payload] := by
  rw [segments_of_gt h]
  rfl

/-- After the first frame the consecutive ones follow by their numbers. -/
theorem take_succ_segments (h : 7 < payload.length) (hk : 0 < k) (hle : k ≤ count payload) :
    (segments payload).take (k + 1) = (segments payload).take k ++ [consecutive payload k] := by
  obtain ⟨n, rfl⟩ : ∃ n, k = n + 1 := ⟨k - 1, by omega⟩
  rw [segments_of_gt h, List.take_succ_cons, List.take_succ_cons, List.cons_append,
    List.take_add_one, List.getElem?_map, List.getElem?_range hle]
  rfl

theorem take_segments_of_count_lt (h : 7 < payload.length) (hk : count payload < k) :
    (segments payload).take k = segments payload := by
  apply List.take_of_length_le
  rw [length_segments h]
  omega

theorem segments_ne_nil (payload : List Byte) : segments payload ≠ [] := by
  unfold segments
  split
  · exact List.cons_ne_nil _ _
  · exact List.cons_ne_nil _ _

end Segmentation

namespace CanTp

open Segmentation

@[simp] theorem DiagPdu.length_payload (pdu : DiagPdu) : pdu.payload.length = pdu.length.toNat := by
  simp [DiagPdu.payload]

/-- A byte of a part of the payload; behind the part there is padding. -/
theorem DiagPdu.getD_payload (pdu : DiagPdu) (offset count i : Nat) :
    ((pdu.payload.drop offset).take count).getD i 0 =
      if i < count ∧ offset + i < pdu.length.toNat then pdu.data (offset + i) else 0 := by
  rw [List.getD_eq_getElem?_getD, List.getElem?_take]
  by_cases hi : i < count
  · rw [if_pos hi, List.getElem?_drop, DiagPdu.payload, List.getElem?_map]
    by_cases hlen : offset + i < pdu.length.toNat
    · rw [List.getElem?_range hlen, if_pos ⟨hi, hlen⟩]
      rfl
    · rw [List.getElem?_eq_none (by simpa using hlen), if_neg (fun h => hlen h.2)]
      rfl
  · rw [if_neg hi, if_neg (fun h => hi h.1)]
    rfl

/-- Two frames of the response identifier are compared byte by byte. -/
theorem frame_ext {data : Fin 8 → Byte} {bytes : List Byte}
    (h : ∀ j : Fin 8, data j = bytes.getD j 0) :
    (⟨udsResponseId, 8, data⟩ : CanFrame) = Segmentation.frame bytes := by
  unfold Segmentation.frame
  rw [funext h]

theorem firstPci (x : Byte) : pciFf ||| (x &&& pciLowNibbleMask) = BitVec.ofNat 8 (16 + x.toNat % 16) := by
  have hdec : ∀ x : Byte, pciFf ||| (x &&& pciLowNibbleMask) = BitVec.ofNat 8 (16 + x.toNat % 16) := by
    decide +kernel
  exact hdec x

theorem consecutivePci (x : Byte) :
    pciCf ||| (x &&& pciLowNibbleMask) = BitVec.ofNat 8 (0x20 + x.toNat % 16) := by
  have hdec : ∀ x : Byte,
      pciCf ||| (x &&& pciLowNibbleMask) = BitVec.ofNat 8 (0x20 + x.toNat % 16) := by
    decide +kernel
  exact hdec x

theorem singleFrame_eq {pdu : DiagPdu} (h : pdu.length.toNat ≤ 7) :
    singleFrame pdu = single pdu.payload := by
  unfold singleFrame single clearFrame CanFrame.copy CanFrame.set
  apply frame_ext
  intro j
  rw [DiagPdu.length_payload]
  refine Fin.cases ?_ (fun i => ?_) j
  · simp only [Fin.val_zero, List.getD_cons_zero]
    rw [if_neg (by omega), if_true]
    rfl
  · have hpart := pdu.getD_payload 0 7 i.val
    rw [List.drop_zero, List.take_of_length_le (by simpa using h)] at hpart
    simp only [Fin.val_succ, List.getD_cons_succ, hpart, Nat.zero_add, Nat.add_sub_cancel]
    rw [if_neg (Fin.succ_ne_zero i)]
    by_cases hi : i.val < pdu.length.toNat
    · rw [if_pos (by omega), if_pos (by omega)]
    · rw [if_neg (by omega), if_neg (by omega)]

theorem firstFrame_eq {pdu : DiagPdu} (h : 6 ≤ pdu.length.toNat) (hle : pdu.length.toNat < 4096) :
    firstFrame pdu = first pdu.payload := by
  unfold firstFrame first clearFrame CanFrame.copy CanFrame.set
  apply frame_ext
  intro j
  rw [DiagPdu.length_payload]
  refine Fin.cases ?_ (fun j => Fin.cases ?_ (fun i => ?_) j) j
  · have hhigh : ((pdu.length >>> 8).setWidth 8).toNat = pdu.length.toNat / 256 := by
      rw [BitVec.toNat_setWidth, BitVec.toNat_ushiftRight, Nat.shiftRight_eq_div_pow]
      omega
    simp only [Fin.val_zero, List.getD_cons_zero]
    rw [if_neg (by omega), if_neg (by decide), if_true, firstPci, hhigh]
    congr 2
    omega
  · simp only [Fin.val_succ, Fin.val_zero, List.getD_cons_succ, List.getD_cons_zero]
    rw [if_neg (by omega), if_pos (by decide)]
    apply BitVec.eq_of_toNat_eq
    simp
  · have hpart := pdu.getD_payload 0 6 i.val
    rw [List.drop_zero] at hpart
    have hi := i.isLt
    simp only [Fin.val_succ, List.getD_cons_succ, hpart, Nat.zero_add]
    rw [if_pos (by unfold ffPayloadLength; omega), if_pos (by omega)]
    congr 1

/-- The frame behind `k` others is the consecutive frame with number `k`. -/
theorem consecutiveFrame_eq {pdu : DiagPdu} {sequenceNumber : Byte} {offset count k : Nat}
    (hsn : sequenceNumber.toNat % 16 = k % 16) (hoffset : offset = 7 * k - 1)
    (hcount : count = min (pdu.length.toNat - offset) 7) :
    consecutiveFrame sequenceNumber offset count pdu = consecutive pdu.payload k := by
  unfold consecutiveFrame consecutive clearFrame CanFrame.copy CanFrame.set
  apply frame_ext
  intro j
  refine Fin.cases ?_ (fun i => ?_) j
  · simp only [Fin.val_zero, List.getD_cons_zero]
    rw [if_neg (by omega), if_true, consecutivePci, hsn]
  · have hi := i.isLt
    simp only [Fin.val_succ, List.getD_cons_succ, pdu.getD_payload, Nat.add_sub_cancel]
    rw [if_neg (Fin.succ_ne_zero i), ← hoffset]
    by_cases hlen : i.val < count
    · rw [if_pos (by omega), if_pos (by omega)]
    · rw [if_neg (by omega), if_neg (by omega)]

end CanTp
