import BootloaderV2.Lib.Words
import Mathlib.Tactic.Common

/-!
# Messages in frames of eight bytes

A message of up to seven bytes goes into a single frame behind its length.  A longer one is announced
by a first frame, with six bytes of it, and goes on in consecutive frames of seven bytes, which are
numbered modulo 16; the last one is filled up.
-/

namespace Framing

/-- A frame that is filled up with zeros. -/
def pad (bytes : List Byte) : List Byte := bytes ++ List.replicate (8 - bytes.length) 0

def single (message : List Byte) : List Byte := pad (BitVec.ofNat 8 message.length :: message)

def first (message : List Byte) : List Byte :=
  BitVec.ofNat 8 (0x10 + message.length / 256) :: BitVec.ofNat 8 (message.length % 256) ::
    message.take 6

/-- What the `n`-th consecutive frame carries; the first one has number 1. -/
def chunk (message : List Byte) (n : Nat) : List Byte := (message.drop (7 * n - 1)).take 7

def consecutive (message : List Byte) (n : Nat) : List Byte :=
  pad (BitVec.ofNat 8 (0x20 + n % 16) :: chunk message n)

/-- How many consecutive frames follow a first frame. -/
def count (message : List Byte) : Nat := message.length / 7

/-- The consecutive frames from number `n` on. -/
def consecutives (message : List Byte) (n : Nat) : List (List Byte) :=
  (List.range' n (count message + 1 - n)).map (consecutive message)

def segments (message : List Byte) : List (List Byte) :=
  if message.length ≤ 7 then [single message] else first message :: consecutives message 1

variable {message bytes : List Byte} {n : Nat}

theorem length_pad (h : bytes.length ≤ 8) : (pad bytes).length = 8 := by
  unfold pad
  rw [List.length_append, List.length_replicate]
  omega

theorem length_chunk : (chunk message n).length = min 7 (message.length - (7 * n - 1)) := by
  unfold chunk
  rw [List.length_take, List.length_drop]

theorem length_consecutive : (consecutive message n).length = 8 := by
  apply length_pad
  rw [List.length_cons, length_chunk]
  omega

theorem length_first (h : 7 < message.length) : (first message).length = 8 := by
  unfold first
  rw [List.length_cons, List.length_cons, List.length_take]
  omega

theorem length_single (h : message.length ≤ 7) : (single message).length = 8 := by
  apply length_pad
  rw [List.length_cons]
  omega

theorem consecutives_succ (h : n ≤ count message) :
    consecutives message n = consecutive message n :: consecutives message (n + 1) := by
  unfold consecutives
  rw [Nat.succ_sub h, List.range'_succ, List.map_cons]
  congr 3
  omega

theorem consecutives_nil (h : count message < n) : consecutives message n = [] := by
  unfold consecutives
  rw [Nat.sub_eq_zero_of_le h]
  rfl

theorem segments_long (h : 7 < message.length) :
    segments message = first message :: consecutives message 1 := by
  unfold segments
  rw [if_neg (by omega)]

theorem take_one_segments (h : 7 < message.length) :
    (segments message).take 1 = [first message] := by
  rw [segments_long h]
  rfl

theorem take_succ_segments (h : 7 < message.length) (hn : n < count message) :
    (segments message).take (n + 2) =
      (segments message).take (n + 1) ++ [consecutive message (n + 1)] := by
  have hget : (consecutives message 1)[n]? = some (consecutive message (n + 1)) := by
    unfold consecutives
    rw [List.getElem?_map, List.getElem?_range' (by omega), Option.map_some, Nat.add_comm 1]
    congr 2
    omega
  rw [segments_long h, List.take_succ_cons, List.take_succ_cons, List.take_add_one, hget]
  rfl

theorem take_segments (h : 7 < message.length) :
    (segments message).take (count message + 1) = segments message := by
  apply List.take_of_length_le
  rw [segments_long h, List.length_cons]
  unfold consecutives
  rw [List.length_map, List.length_range']
  omega

/-- A byte of a part of a message that is read from an array; behind the part there is padding. -/
theorem getD_part (data : Nat → Byte) (length offset size i : Nat) :
    ((((List.range length).map data).drop offset).take size).getD i 0 =
      if i < size ∧ offset + i < length then data (offset + i) else 0 := by
  rw [List.getD_eq_getElem?_getD, List.getElem?_take]
  by_cases hi : i < size
  · rw [if_pos hi, List.getElem?_drop, List.getElem?_map]
    by_cases hlen : offset + i < length
    · rw [List.getElem?_range hlen, if_pos ⟨hi, hlen⟩]
      rfl
    · rw [List.getElem?_eq_none (by simpa using hlen), if_neg (fun h => hlen h.2)]
      rfl
  · rw [if_neg hi, if_neg (fun h => hi h.1)]
    rfl

/-- Eight bytes one by one are those of a frame. -/
theorem map_range_eq_pad {data : Nat → Byte} (hlen : bytes.length ≤ 8)
    (h : ∀ i, i < 8 → data i = bytes.getD i 0) : (List.range 8).map data = pad bytes := by
  apply List.ext_getElem?
  intro i
  rw [List.getElem?_map]
  by_cases hi : i < 8
  · rw [List.getElem?_range hi, Option.map_some, h i hi]
    unfold pad
    by_cases hin : i < bytes.length
    · rw [List.getElem?_append_left hin, List.getD_eq_getElem?_getD, List.getElem?_eq_getElem hin]
      rfl
    · rw [List.getElem?_append_right (by omega), List.getD_eq_getElem?_getD,
        List.getElem?_eq_none (by omega), List.getElem?_replicate, if_pos (by omega)]
      rfl
  · rw [List.getElem?_eq_none (by simpa using hi),
      List.getElem?_eq_none (by rw [length_pad hlen]; omega)]
    rfl

theorem pad_first (h : 7 < message.length) : pad (first message) = first message := by
  unfold pad
  rw [length_first h]
  exact List.append_nil _

/-- The number of a consecutive frame goes into the low nibble of its first byte. -/
theorem consecutive_pci (n : Nat) :
    (0x20 : Byte) ||| BitVec.ofNat 8 (n % 16) = BitVec.ofNat 8 (0x20 + n % 16) := by
  have hdec : ∀ x : Fin 16, (0x20 : Byte) ||| BitVec.ofNat 8 x.val = BitVec.ofNat 8 (0x20 + x.val) := by
    decide +kernel
  exact hdec ⟨n % 16, Nat.mod_lt n (by decide)⟩

theorem next_number (n : Nat) :
    (BitVec.ofNat 8 (n % 16) + 1) &&& 0x0F = BitVec.ofNat 8 ((n + 1) % 16) := by
  have hdec : ∀ x : Fin 16,
      (BitVec.ofNat 8 x.val + 1) &&& 0x0F = (BitVec.ofNat 8 ((x.val + 1) % 16) : Byte) := by
    decide +kernel
  rw [hdec ⟨n % 16, Nat.mod_lt n (by decide)⟩, Nat.mod_add_mod]

/-! ## Putting a message together -/

/-- What a receiver holds after the first frame and the consecutive frames up to number `n`. -/
def gathered (message : List Byte) : Nat → List Byte
  | 0 => message.take 6
  | n + 1 => gathered message n ++ (consecutive message (n + 1)).drop 1

theorem drop_consecutive : (consecutive message n).drop 1 =
    chunk message n ++ List.replicate (7 - (chunk message n).length) 0 := by
  unfold consecutive pad
  rw [List.cons_append, List.drop_succ_cons, List.drop_zero, List.length_cons]
  congr 2
  omega

theorem length_gathered (h : 7 < message.length) : (gathered message n).length = 6 + 7 * n := by
  induction n with
  | zero =>
    show (message.take 6).length = _
    rw [List.length_take]
    omega
  | succ n ih =>
    show (gathered message n ++ _).length = _
    rw [List.length_append, ih, List.length_drop, length_consecutive]
    omega

/-- Up to the last but one the frames are full. -/
theorem gathered_eq (hn : 6 + 7 * n ≤ message.length) :
    gathered message n = message.take (6 + 7 * n) := by
  induction n with
  | zero => rfl
  | succ n ih =>
    have hoffset : 7 * (n + 1) - 1 = 6 + 7 * n := by omega
    have hfull : (chunk message (n + 1)).length = 7 := by
      rw [length_chunk]
      omega
    show gathered message n ++ _ = _
    rw [ih (by omega), drop_consecutive, hfull, Nat.sub_self, List.replicate_zero, List.append_nil]
    unfold chunk
    rw [hoffset, ← List.take_add]
    congr 1

/-- With the last one the message is complete. -/
theorem gathered_count (h : 7 < message.length) :
    (gathered message (count message)).take message.length = message := by
  obtain ⟨k, hk⟩ : ∃ k, count message = k + 1 := ⟨count message - 1, by unfold count; omega⟩
  have hlast : 6 + 7 * k ≤ message.length := by
    unfold count at hk
    omega
  have hoffset : 7 * (k + 1) - 1 = 6 + 7 * k := by omega
  have hrest : chunk message (k + 1) = message.drop (6 + 7 * k) := by
    unfold chunk
    rw [hoffset]
    apply List.take_of_length_le
    rw [List.length_drop]
    unfold count at hk
    omega
  rw [hk]
  show (gathered message k ++ _).take _ = _
  rw [gathered_eq hlast, drop_consecutive, hrest, ← List.append_assoc, List.take_append_drop]
  exact List.take_left' rfl

/-- It is not complete before. -/
theorem gathered_short (h : 7 < message.length) (hn : n < count message) :
    (gathered message n).length < message.length := by
  rw [length_gathered h]
  unfold count at hn
  omega

theorem gathered_long (h : 7 < message.length) :
    message.length ≤ (gathered message (count message)).length := by
  rw [length_gathered h]
  unfold count
  omega

theorem gathered_flatMap : gathered message n =
    message.take 6 ++ ((List.range' 1 n).map (consecutive message)).flatMap (List.drop 1) := by
  induction n with
  | zero => exact (List.append_nil _).symm
  | succ n ih =>
    show gathered message n ++ _ = _
    rw [ih, List.range'_concat, List.map_append, List.flatMap_append, List.append_assoc,
      Nat.one_mul, Nat.add_comm 1 n]
    congr 2
    exact (List.append_nil _).symm

/-- What a receiver reads from the frames, in the length that the first one announces. -/
def read : List (List Byte) → List Byte
  | [] => []
  | frame :: frames =>
    let pci := frame.getD 0 0
    if pci >>> 4 = 1 then
      ((frame.drop 2).take 6 ++ frames.flatMap (List.drop 1)).take
        ((pci &&& 0x0F).toNat * 256 + (frame.getD 1 0).toNat)
    else (frame.drop 1).take (pci &&& 0x0F).toNat

theorem read_segments (h : message.length < 4096) : read (segments message) = message := by
  by_cases hshort : message.length ≤ 7
  · have htype : ∀ x : Fin 8, ¬ (BitVec.ofNat 8 x.val : Byte) >>> 4 = 1 := by decide +kernel
    have hlow : ∀ x : Fin 8, ((BitVec.ofNat 8 x.val : Byte) &&& 0x0F).toNat = x.val := by
      decide +kernel
    have hlt : message.length < 8 := Nat.lt_succ_of_le hshort
    have hsegments : segments message = [single message] := by
      unfold segments
      exact if_pos hshort
    rw [hsegments]
    show (if (BitVec.ofNat 8 message.length : Byte) >>> 4 = 1 then _ else
      (message ++ List.replicate _ 0).take ((BitVec.ofNat 8 message.length : Byte) &&& 0x0F).toNat) = _
    rw [if_neg (htype ⟨_, hlt⟩), hlow ⟨_, hlt⟩]
    exact List.take_left' rfl
  · have hlong : 7 < message.length := Nat.lt_of_not_le hshort
    have htype : ∀ x : Fin 16, (BitVec.ofNat 8 (0x10 + x.val) : Byte) >>> 4 = 1 := by decide +kernel
    have hhigh : ∀ x : Fin 16,
        ((BitVec.ofNat 8 (0x10 + x.val) : Byte) &&& 0x0F).toNat = x.val := by
      decide +kernel
    have hlt : message.length / 256 < 16 := by omega
    have hlow : (BitVec.ofNat 8 (message.length % 256) : Byte).toNat = message.length % 256 := by
      rw [BitVec.toNat_ofNat]
      omega
    have hconsecutives : consecutives message 1 =
        (List.range' 1 (count message)).map (consecutive message) := by
      unfold consecutives
      rw [Nat.add_sub_cancel]
    rw [segments_long hlong]
    show (if (BitVec.ofNat 8 (0x10 + message.length / 256) : Byte) >>> 4 = 1 then
      ((message.take 6).take 6 ++ (consecutives message 1).flatMap (List.drop 1)).take
        (((BitVec.ofNat 8 (0x10 + message.length / 256) : Byte) &&& 0x0F).toNat * 256 +
          (BitVec.ofNat 8 (message.length % 256) : Byte).toNat) else _) = _
    rw [if_pos (htype ⟨_, hlt⟩), hhigh ⟨_, hlt⟩, hlow, List.take_take, Nat.min_self, hconsecutives,
      ← gathered_flatMap, Nat.div_add_mod']
    exact gathered_count hlong

end Framing
