import BootloaderV2.Programming
import Mathlib.Data.List.Induction

/-!
# Reception of ISO-TP

`boot_isotp.c`: single frames, and first frames with their consecutive frames, put together in a
buffer of 256 bytes.  Every access to a buffer is checked: the result is `none` where the code would
leave the buffer.
-/

open NorFlash

/-- A frame; the data beyond its length are whatever the mailbox holds. -/
structure BootCan.Frame where
  id : Word
  dlc : Byte
  data : Nat → Byte

/-- Reads one of the eight data bytes. -/
def BootCan.Frame.load (frame : Frame) (index : Nat) : Option Byte :=
  if index < 8 then some (frame.data index) else none

namespace BootIsoTp

def requestId : Word := 0x7E0
def timeoutLoops : Word := 4000000

def typeMask : Byte := 0xF0
def singleFrame : Byte := 0x00
def firstFrame : Byte := 0x10
def consecutiveFrame : Byte := 0x20

structure Pdu where
  length : BitVec 16
  data : Nat → Byte

def Pdu.payload (p : Pdu) : List Byte := (List.range p.length.toNat).map p.data

def Pdu.load (p : Pdu) (index : Nat) : Option Byte :=
  if index < maxPduLength then some (p.data index) else none

def Pdu.store (p : Pdu) (index : Nat) (value : Byte) : Option Pdu :=
  if index < maxPduLength then
    some { p with data := fun i => if i = index then value else p.data i }
  else none

/-- The copying loops: `count` bytes from `index` on, to `offset` and what follows. -/
def copyLoop (load : Nat → Option Byte) (offset : Nat) : Nat → Nat → Pdu → Option Pdu
  | _, 0, p => some p
  | index, count + 1, p => do
    let value ← load index
    let p ← p.store (offset + index) value
    copyLoop load offset (index + 1) count p

inductive RxState where
  | idle | waitCf
  deriving DecidableEq, Repr

/-- The static variables, and the request that the caller of the main function holds. -/
structure Receiver where
  rxState : RxState
  rxPdu : Pdu
  rxOffset : BitVec 16
  nextSn : Byte
  timeout : Word
  request : Pdu

/-- `BootIsoTp_Abort`. -/
def abort (r : Receiver) : Receiver :=
  { r with
    rxState := .idle
    rxPdu := { r.rxPdu with length := 0 }
    rxOffset := 0
    nextSn := 1
    timeout := 0 }

/-- The count of the calls since the last frame of a segmented request. -/
def countCall (r : Receiver) : Receiver :=
  if r.rxState = .waitCf then
    if timeoutLoops ≤ r.timeout + 1 then abort r else { r with timeout := r.timeout + 1 }
  else r

def receiveSingle (frame : BootCan.Frame) (r : Receiver) : Option (Bool × Receiver) := do
  let count := frame.data 0 &&& 0x0F
  if count = 0 ∨ 7 < count ∨ frame.dlc < count + 1 then return (false, r)
  let r := abort r
  let request ← copyLoop (fun index => frame.load (index + 1)) 0 0 count.toNat
    { r.request with length := count.zeroExtend 16 }
  return (true, { r with request := request })

/-- The flow control that answers a first frame may get lost; nothing here depends on it. -/
def receiveFirst (frame : BootCan.Frame) (r : Receiver) : Option (Bool × Receiver) := do
  let total := ((frame.data 0 &&& 0x0F).zeroExtend 16) <<< 8 ||| (frame.data 1).zeroExtend 16
  if frame.dlc ≠ 8 ∨ total ≤ 7 ∨ BitVec.ofNat 16 maxPduLength < total then return (false, abort r)
  let r := abort r
  let rxPdu ← copyLoop (fun index => frame.load (index + 2)) 0 0 6 { r.rxPdu with length := total }
  return (false, { r with rxPdu := rxPdu, rxOffset := 6, rxState := .waitCf, timeout := 0 })

def receiveConsecutive (frame : BootCan.Frame) (r : Receiver) : Option (Bool × Receiver) := do
  if frame.data 0 &&& 0x0F ≠ r.nextSn then return (false, abort r)
  let remaining := r.rxPdu.length - r.rxOffset
  let count : Byte := if 7 < remaining then 7 else remaining.truncate 8
  if frame.dlc < count + 1 then return (false, abort r)
  let rxPdu ← copyLoop (fun index => frame.load (index + 1)) r.rxOffset.toNat 0 count.toNat r.rxPdu
  let r := { r with
    rxPdu := rxPdu
    rxOffset := r.rxOffset + count.zeroExtend 16
    nextSn := (r.nextSn + 1) &&& 0x0F
    timeout := 0 }
  if r.rxOffset = r.rxPdu.length then
    let request ← copyLoop r.rxPdu.load 0 0 r.rxPdu.length.toNat
      { r.request with length := r.rxPdu.length }
    return (true, abort { r with request := request })
  return (false, r)

/-- `BootIsoTp_MainFunction` on what `BootCan_Receive` delivers; the result tells whether `request`
    holds a new PDU. -/
def mainFunction (poll : Option BootCan.Frame) (r : Receiver) : Option (Bool × Receiver) :=
  let r := countCall r
  match poll with
  | none => some (false, r)
  | some frame =>
    if frame.id ≠ requestId ∨ frame.dlc = 0 then some (false, r)
    else
      let pci := frame.data 0 &&& typeMask
      if pci = singleFrame then receiveSingle frame r
      else if pci = firstFrame then receiveFirst frame r
      else if pci = consecutiveFrame ∧ r.rxState = .waitCf then receiveConsecutive frame r
      else some (false, r)

/-- The calls one after the other, with the results that they return. -/
def run : List (Option BootCan.Frame) → Receiver → Option (List Bool × Receiver)
  | [], r => some ([], r)
  | poll :: polls, r => do
    let (received, r) ← mainFunction poll r
    let (rest, r) ← run polls r
    return (received :: rest, r)

end BootIsoTp

/-! ## Frames as numbers -/

namespace BootCan.Frame

/-- The nibbles of the first byte: the type, and what goes with it. -/
def kind (f : Frame) : Nat := (f.data 0).toNat / 16

def low (f : Frame) : Nat := (f.data 0).toNat % 16

/-- The length that a first frame announces. -/
def announced (f : Frame) : Nat := f.low * 256 + (f.data 1).toNat

def bytesFrom (f : Frame) (index count : Nat) : List Byte :=
  (List.range count).map fun i => f.data (i + index)

@[simp] theorem length_bytesFrom (f : Frame) (index count : Nat) :
    (f.bytesFrom index count).length = count := by
  simp [bytesFrom]

/-- A frame for this server that is not empty. -/
def Heard (f : Frame) : Prop := f.id = BootIsoTp.requestId ∧ f.dlc ≠ 0

structure IsSingle (f : Frame) : Prop where
  heard : f.Heard
  kind : f.kind = 0
  pos : 0 < f.low
  le : f.low ≤ 7
  whole : f.low + 1 ≤ f.dlc.toNat

structure IsFirst (f : Frame) : Prop where
  heard : f.Heard
  kind : f.kind = 1
  full : f.dlc.toNat = 8
  pos : 7 < f.announced
  le : f.announced ≤ BootIsoTp.maxPduLength

structure IsConsecutive (f : Frame) : Prop where
  heard : f.Heard
  kind : f.kind = 2

end BootCan.Frame

namespace BootIsoTp

open BootCan (Frame)

theorem low_toNat (b : Byte) : (b &&& 0x0F).toNat = b.toNat % 16 := by
  rw [BitVec.toNat_and]
  exact Nat.and_two_pow_sub_one_eq_mod _ 4

/-- The type of a frame is the upper half of its first byte. -/
theorem type_eq_iff {b : Byte} {k : Nat} (hk : k < 16) :
    b &&& typeMask = BitVec.ofNat 8 (16 * k) ↔ b.toNat / 16 = k := by
  have hdec : ∀ (b : Byte) (k : Fin 16), b &&& typeMask = BitVec.ofNat 8 (16 * k.val) ↔
      b.toNat / 16 = k.val := by
    decide +kernel
  exact hdec b ⟨k, hk⟩

theorem single_iff {b : Byte} : b &&& typeMask = singleFrame ↔ b.toNat / 16 = 0 :=
  type_eq_iff (k := 0) (by decide)

theorem first_iff {b : Byte} : b &&& typeMask = firstFrame ↔ b.toNat / 16 = 1 :=
  type_eq_iff (k := 1) (by decide)

theorem consecutive_iff {b : Byte} : b &&& typeMask = consecutiveFrame ↔ b.toNat / 16 = 2 :=
  type_eq_iff (k := 2) (by decide)

/-- The twelve bits of a first frame. -/
theorem announced_toNat (f : Frame) :
    (((f.data 0 &&& 0x0F).zeroExtend 16) <<< 8 ||| (f.data 1).zeroExtend 16 : BitVec 16).toNat =
      f.announced := by
  have h0 := (f.data 0).isLt
  have h1 := (f.data 1).isLt
  have hlow := low_toNat (f.data 0)
  have hle : f.low < 16 := Nat.mod_lt _ (by decide)
  have hshift : f.low <<< 8 = f.low * 256 := Nat.shiftLeft_eq _ _
  rw [BitVec.toNat_or, BitVec.toNat_shiftLeft, BitVec.toNat_setWidth, BitVec.toNat_setWidth, hlow]
  show (f.low % 2 ^ 16) <<< 8 % 2 ^ 16 ||| (f.data 1).toNat % 2 ^ 16 = _
  rw [@Nat.mod_eq_of_lt f.low _ (by omega), hshift, Nat.mod_eq_of_lt (by omega), ← hshift,
    Nat.mod_eq_of_lt (by omega), ← Nat.shiftLeft_add_eq_or_of_lt (by omega), hshift]
  rfl

/-! ## Copying -/

/-- A copying loop within both buffers. -/
theorem copyLoop_eq {load : Nat → Option Byte} {value : Nat → Byte} {offset : Nat} :
    ∀ {count index : Nat} {p : Pdu}, (∀ i, index ≤ i → i < index + count → load i = some (value i)) →
      offset + index + count ≤ maxPduLength →
      copyLoop load offset index count p = some { p with
        data := place (offset + index) count (fun i => value (index + i)) p.data } := by
  intro count
  induction count with
  | zero =>
    intro index p hload hbound
    have hplace : place (offset + index) 0 (fun i => value (index + i)) p.data = p.data := by
      funext a
      exact place_outside (by omega)
    rw [hplace]
    rfl
  | succ count ih =>
    intro index p hload hbound
    have hstore : p.store (offset + index) (value index) = some { p with
        data := fun i => if i = offset + index then value index else p.data i } :=
      if_pos (by omega)
    show (load index).bind (fun value => (p.store (offset + index) value).bind
      (copyLoop load offset (index + 1) count)) = _
    rw [hload index (by omega) (by omega), Option.bind_some, hstore, Option.bind_some,
      ih (fun i hi hi' => hload i (by omega) (by omega)) (by omega)]
    congr 2
    funext a
    unfold place
    dsimp only
    by_cases ha : a = offset + index
    · rw [if_neg (by omega), if_pos ha, if_pos (by omega), ha]
      congr 1
      omega
    · by_cases hin : offset + (index + 1) ≤ a ∧ a < offset + (index + 1) + count
      · rw [if_pos hin, if_pos (by omega)]
        congr 1
        omega
      · rw [if_neg hin, if_neg ha, if_neg (by omega)]

theorem load_frame {f : Frame} {shift i : Nat} (h : i + shift < 8) :
    f.load (i + shift) = some (f.data (i + shift)) := if_pos h

/-- Copying from a frame. -/
theorem copyLoop_frame {f : Frame} {shift offset count : Nat} {p : Pdu} (h : count + shift ≤ 8)
    (hbound : offset + count ≤ maxPduLength) :
    copyLoop (fun index => f.load (index + shift)) offset 0 count p = some { p with
      data := place offset count (fun i => f.data (i + shift)) p.data } := by
  have hload : ∀ i, 0 ≤ i → i < 0 + count → f.load (i + shift) = some (f.data (i + shift)) :=
    fun i _ hi => load_frame (by omega)
  rw [copyLoop_eq hload (by omega)]
  simp

/-- Copying from one buffer to the other. -/
theorem copyLoop_pdu {src p : Pdu} {count : Nat} (h : count ≤ maxPduLength) :
    copyLoop src.load 0 0 count p = some { p with data := place 0 count src.data p.data } := by
  have hload : ∀ i, 0 ≤ i → i < 0 + count → src.load i = some (src.data i) :=
    fun i _ hi => if_pos (by omega)
  rw [copyLoop_eq hload (by omega)]
  simp

theorem map_range_eq_take {l : List Byte} {n : Nat} {value : Nat → Byte}
    (h : ∀ i, i < n → l[i]? = some (value i)) : (List.range n).map value = l.take n := by
  apply List.ext_getElem?
  intro i
  by_cases hi : i < n
  · rw [List.getElem?_take_of_lt hi, h i hi]
    simp [hi]
  · rw [List.getElem?_eq_none (by simp; omega), List.getElem?_eq_none (by simp; omega)]

/-- A buffer that was filled from its start. -/
theorem payload_place {length : BitVec 16} {count : Nat} {value data : Nat → Byte}
    (h : length.toNat = count) :
    (⟨length, place 0 count value data⟩ : Pdu).payload = (List.range count).map value := by
  unfold Pdu.payload
  rw [h]
  refine List.map_congr_left fun i hi => ?_
  have hplace : place 0 count value data (0 + i) = value i := place_inside (List.mem_range.1 hi)
  rwa [Nat.zero_add] at hplace

/-! ## One frame -/

variable {f : Frame} {r : Receiver}

theorem single_refused_iff (hh : f.Heard) (hk : f.kind = 0) :
    (f.data 0 &&& 0x0F = 0 ∨ 7 < f.data 0 &&& 0x0F ∨ f.dlc < (f.data 0 &&& 0x0F) + 1) ↔
      ¬ f.IsSingle := by
  have hlow : (f.data 0 &&& 0x0F).toNat = f.low := low_toNat _
  have hlt : f.low < 16 := Nat.mod_lt _ (by decide)
  have hzero : f.data 0 &&& 0x0F = 0 ↔ f.low = 0 := by
    rw [← hlow]
    exact ⟨fun h => by rw [h]; rfl, fun h => BitVec.eq_of_toNat_eq h⟩
  have hseven : 7 < f.data 0 &&& 0x0F ↔ 7 < f.low := by
    rw [BitVec.lt_def, hlow]
    rfl
  have hshort : f.dlc < (f.data 0 &&& 0x0F) + 1 ↔ f.dlc.toNat < f.low + 1 := by
    rw [BitVec.lt_def, BitVec.toNat_add, hlow, show (1 : Byte).toNat = 1 from rfl,
      Nat.mod_eq_of_lt (by omega)]
  rw [hzero, hseven, hshort]
  constructor
  · rintro h ⟨-, -, hpos, hle, hwhole⟩
    omega
  · intro h
    by_contra hno
    exact h ⟨hh, hk, by omega, by omega, by omega⟩

/-- A single frame is delivered, or is as good as no frame. -/
theorem receiveSingle_spec (hh : f.Heard) (hk : f.kind = 0) (r : Receiver) :
    (f.IsSingle ∧ ∃ request, receiveSingle f r = some (true, { abort r with request := request }) ∧
      request.payload = f.bytesFrom 1 f.low) ∨
    (¬ f.IsSingle ∧ receiveSingle f r = some (false, r)) := by
  have hlow : (f.data 0 &&& 0x0F).toNat = f.low := low_toNat _
  unfold receiveSingle
  dsimp only
  by_cases hs : f.IsSingle
  · left
    rw [if_neg (mt (single_refused_iff hh hk).1 (not_not.2 hs)), hlow]
    have hle := hs.le
    dsimp only [abort]
    rw [copyLoop_frame (by omega) (by unfold maxPduLength; omega)]
    refine ⟨hs, _, rfl, payload_place ?_⟩
    rw [BitVec.toNat_setWidth, hlow, Nat.mod_eq_of_lt (by omega)]
  · right
    rw [if_pos ((single_refused_iff hh hk).2 hs)]
    exact ⟨hs, rfl⟩

theorem first_refused_iff (hh : f.Heard) (hk : f.kind = 1) {total : BitVec 16}
    (ht : total.toNat = f.announced) :
    (f.dlc ≠ 8 ∨ total ≤ 7 ∨ BitVec.ofNat 16 maxPduLength < total) ↔ ¬ f.IsFirst := by
  have hmax : maxPduLength = 256 := rfl
  have hfull : f.dlc = 8 ↔ f.dlc.toNat = 8 :=
    ⟨fun h => by rw [h]; rfl, fun h => BitVec.eq_of_toNat_eq h⟩
  have hseven : total ≤ 7 ↔ f.announced ≤ 7 := by
    rw [BitVec.le_def, ht]
    rfl
  have hbound : BitVec.ofNat 16 maxPduLength < total ↔ maxPduLength < f.announced := by
    rw [BitVec.lt_def, ht]
    rfl
  rw [Ne, hfull, hseven, hbound]
  constructor
  · rintro h ⟨-, -, hfull, hpos, hle⟩
    omega
  · intro h
    by_contra hno
    exact h ⟨hh, hk, by omega, by omega, by omega⟩

/-- What the receiver has put together of the request that `ff` announces. -/
structure Holds (ff : Frame) (n t : Nat) (bytes : List Byte) (r : Receiver) : Prop where
  first : ff.IsFirst
  short : bytes.length < ff.announced
  state : r.rxState = .waitCf
  length : r.rxPdu.length.toNat = ff.announced
  offset : r.rxOffset.toNat = bytes.length
  sequence : r.nextSn.toNat = (n + 1) % 16
  timeout : r.timeout.toNat = t
  inTime : t < timeoutLoops.toNat
  data : ∀ i, i < bytes.length → bytes[i]? = some (r.rxPdu.data i)

/-- A first frame starts over, or at least ends what was going on. -/
theorem receiveFirst_spec (hh : f.Heard) (hk : f.kind = 1) (r : Receiver) :
    (f.IsFirst ∧ ∃ r', receiveFirst f r = some (false, r') ∧ Holds f 0 0 (f.bytesFrom 2 6) r') ∨
    (¬ f.IsFirst ∧ receiveFirst f r = some (false, abort r)) := by
  have ht := announced_toNat f
  unfold receiveFirst
  dsimp only
  generalize (((f.data 0 &&& 0x0F).zeroExtend 16) <<< 8 ||| (f.data 1).zeroExtend 16 : BitVec 16) =
    total at ht
  by_cases hf : f.IsFirst
  · left
    rw [if_neg (mt (first_refused_iff hh hk ht).1 (not_not.2 hf))]
    dsimp only [abort]
    rw [copyLoop_frame (by omega) (by unfold maxPduLength; omega)]
    refine ⟨hf, _, rfl, hf, ?_, rfl, ht, ?_, rfl, rfl, by decide, ?_⟩
    · have := hf.pos
      rw [BootCan.Frame.length_bytesFrom]
      omega
    · rw [BootCan.Frame.length_bytesFrom]
      rfl
    · intro i hi
      rw [BootCan.Frame.length_bytesFrom] at hi
      have hplace : place 0 6 (fun i => f.data (i + 2)) r.rxPdu.data (0 + i) = f.data (i + 2) :=
        place_inside hi
      rw [Nat.zero_add] at hplace
      dsimp only
      rw [hplace]
      simp [BootCan.Frame.bytesFrom, hi]
  · right
    rw [if_pos ((first_refused_iff hh hk ht).2 hf)]
    exact ⟨hf, rfl⟩

variable {ff : Frame} {n t : Nat} {bytes : List Byte}

/-- How many bytes the next consecutive frame carries. -/
def share (ff : Frame) (bytes : List Byte) : Nat := min 7 (ff.announced - bytes.length)

namespace Holds

theorem timeout_succ (h : Holds ff n t bytes r) : (r.timeout + 1).toNat = t + 1 := by
  have hlt := h.inTime
  have hloops : timeoutLoops.toNat = 4000000 := rfl
  rw [BitVec.toNat_add, h.timeout]
  show (t + 1) % 2 ^ 32 = t + 1
  exact Nat.mod_eq_of_lt (by omega)

/-- A call in time is counted, and nothing is lost. -/
theorem countCall (h : Holds ff n t bytes r) (hlt : t + 1 < timeoutLoops.toNat) :
    Holds ff n (t + 1) bytes (countCall r) := by
  have hnext := h.timeout_succ
  unfold BootIsoTp.countCall
  rw [if_pos h.state, if_neg (by rw [BitVec.le_def, hnext]; omega)]
  exact ⟨h.first, h.short, h.state, h.length, h.offset, h.sequence, hnext, hlt, h.data⟩

theorem remaining (h : Holds ff n t bytes r) :
    (r.rxPdu.length - r.rxOffset).toNat = ff.announced - bytes.length := by
  have hshort := h.short
  have hlength := h.length
  have hoffset := h.offset
  have hlt := r.rxPdu.length.isLt
  rw [BitVec.toNat_sub, hlength, hoffset]
  omega

theorem share_toNat (h : Holds ff n t bytes r) :
    (if 7 < r.rxPdu.length - r.rxOffset then 7
      else (r.rxPdu.length - r.rxOffset).truncate 8 : Byte).toNat = share ff bytes := by
  have hrem := h.remaining
  unfold share
  split
  · rename_i hgt
    rw [BitVec.lt_def, hrem] at hgt
    have : (7 : BitVec 16).toNat = 7 := rfl
    rw [Nat.min_eq_left (by omega)]
    rfl
  · rename_i hle
    rw [BitVec.lt_def, hrem] at hle
    have : (7 : BitVec 16).toNat = 7 := rfl
    rw [Nat.min_eq_right (by omega), BitVec.truncate_eq_setWidth, BitVec.toNat_setWidth, hrem,
      Nat.mod_eq_of_lt (by omega)]

/-- The buffer after the next frame has been copied into it. -/
theorem data_place (h : Holds ff n t bytes r) (f : Frame) {i : Nat}
    (hi : i < bytes.length + share ff bytes) :
    (bytes ++ f.bytesFrom 1 7)[i]? =
      some (place bytes.length (share ff bytes) (fun i => f.data (i + 1)) r.rxPdu.data i) := by
  by_cases hlow : i < bytes.length
  · rw [place_outside (.inl hlow), List.getElem?_append_left hlow]
    exact h.data i hlow
  · obtain ⟨k, rfl⟩ : ∃ k, i = bytes.length + k := ⟨i - bytes.length, by omega⟩
    have hk : k < 7 := by
      unfold share at hi
      omega
    rw [place_inside (by omega), List.getElem?_append_right (by omega), Nat.add_sub_cancel_left]
    simp [BootCan.Frame.bytesFrom, hk]

end Holds

/-- A consecutive frame is out of sequence or short and ends the request, or it carries its share. -/
theorem receiveConsecutive_spec (h : Holds ff n t bytes r) (f : Frame) :
    ((f.low ≠ (n + 1) % 16 ∨ f.dlc.toNat < share ff bytes + 1) ∧
      receiveConsecutive f r = some (false, abort r)) ∨
    (f.low = (n + 1) % 16 ∧ share ff bytes + 1 ≤ f.dlc.toNat ∧
      ((∃ r', receiveConsecutive f r = some (false, r') ∧
          Holds ff (n + 1) 0 (bytes ++ f.bytesFrom 1 7) r') ∨
        (ff.announced ≤ (bytes ++ f.bytesFrom 1 7).length ∧
          ∃ r', receiveConsecutive f r = some (true, abort r') ∧
            r'.request.payload = (bytes ++ f.bytesFrom 1 7).take ff.announced))) := by
  have hmax := h.first.le
  have h256 : maxPduLength = 256 := rfl
  have hshort := h.short
  have hlength := h.length
  have hoffset := h.offset
  have hlow : (f.data 0 &&& 0x0F).toNat = f.low := low_toNat _
  have hcount := h.share_toNat
  have hplace : ∀ i, i < bytes.length + share ff bytes → _ := fun i hi => h.data_place f hi
  have hseven : share ff bytes ≤ 7 := Nat.min_le_left _ _
  have hrest : share ff bytes ≤ ff.announced - bytes.length := Nat.min_le_right _ _
  unfold receiveConsecutive
  dsimp only
  by_cases hsn : f.low = (n + 1) % 16
  · rw [if_neg (by
      rw [not_not]
      apply BitVec.eq_of_toNat_eq
      rw [hlow, h.sequence, hsn])]
    generalize (if 7 < r.rxPdu.length - r.rxOffset then 7
      else (r.rxPdu.length - r.rxOffset).truncate 8 : Byte) = count at hcount
    have hdlc : f.dlc < count + 1 ↔ f.dlc.toNat < share ff bytes + 1 := by
      rw [BitVec.lt_def, BitVec.toNat_add, hcount, show (1 : Byte).toNat = 1 from rfl,
        Nat.mod_eq_of_lt (by omega)]
    by_cases hd : f.dlc.toNat < share ff bytes + 1
    · rw [if_pos (hdlc.2 hd)]
      exact .inl ⟨.inr hd, rfl⟩
    · right
      rw [if_neg (mt hdlc.1 hd), hcount, hoffset, copyLoop_frame (by omega) (by omega)]
      refine ⟨hsn, by omega, ?_⟩
      have hsum : (r.rxOffset + count.zeroExtend 16).toNat = bytes.length + share ff bytes := by
        rw [BitVec.toNat_add, hoffset, BitVec.toNat_setWidth, hcount,
          Nat.mod_eq_of_lt (by omega), Nat.mod_eq_of_lt (by omega)]
      dsimp only [Option.bind_eq_bind, Option.bind_some]
      by_cases hdone : bytes.length + share ff bytes = ff.announced
      · -- the request is complete
        right
        refine ⟨?_, ?_⟩
        · simp
          omega
        · rw [if_pos (by
            apply BitVec.eq_of_toNat_eq
            rw [hsum, hlength, hdone]), hlength, copyLoop_pdu (by omega)]
          refine ⟨_, rfl, (payload_place hlength).trans (map_range_eq_take fun i hi => ?_)⟩
          exact hplace i (by omega)
      · -- the share is a whole frame
        left
        have hwhole : share ff bytes = 7 := by
          unfold share at hdone ⊢
          omega
        rw [if_neg (by
          intro heq
          rw [← hlength, ← heq, hsum] at hdone
          exact hdone rfl)]
        refine ⟨_, rfl, h.first, ?_, h.state, hlength, ?_, ?_, rfl, by decide, ?_⟩
        · simp
          omega
        · simp [hsum, hwhole]
        · show ((r.nextSn + 1) &&& 0x0F).toNat = _
          rw [low_toNat, BitVec.toNat_add, h.sequence]
          show ((n + 1) % 16 + 1) % 256 % 16 = _
          omega
        · intro i hi
          apply hplace
          simp at hi
          omega
  · rw [if_pos (by
      intro heq
      apply hsn
      rw [← hlow, heq, h.sequence])]
    exact .inl ⟨.inl hsn, rfl⟩

/-! ## The history of a request -/

/-- A call that a segmented request takes no notice of: without a frame, with the frame of another
    node, with a malformed single frame, or with a flow control or reserved frame. -/
def Quiet : Option Frame → Prop
  | none => True
  | some f => ¬ f.Heard ∨ (f.kind = 0 ∧ ¬ f.IsSingle) ∨ 3 ≤ f.kind

/-- After the first frame `ff` come quiet calls and `n` consecutive frames with the numbers 1, 2 and
    so on modulo 16, whole and in time, the last one `t` calls ago; with their data these are
    `bytes`. -/
inductive Collects (ff : Frame) : List (Option Frame) → Nat → Nat → List Byte → Prop where
  | first : Collects ff [] 0 0 (ff.bytesFrom 2 6)
  | quiet {polls : List (Option Frame)} {n t : Nat} {bytes : List Byte} {poll : Option Frame}
    (h : Collects ff polls n t bytes) (hshort : bytes.length < ff.announced)
    (htime : t + 1 < timeoutLoops.toNat) (hq : Quiet poll) :
    Collects ff (polls ++ [poll]) n (t + 1) bytes
  | consecutive {polls : List (Option Frame)} {n t : Nat} {bytes : List Byte} {f : Frame}
    (h : Collects ff polls n t bytes) (hshort : bytes.length < ff.announced)
    (htime : t + 1 < timeoutLoops.toNat) (hf : f.IsConsecutive) (hsn : f.low = (n + 1) % 16)
    (hwhole : share ff bytes + 1 ≤ f.dlc.toNat) :
    Collects ff (polls ++ [some f]) (n + 1) 0 (bytes ++ f.bytesFrom 1 7)

/-- The calls end with a single frame that has this payload. -/
def FromSingle (polls : List (Option Frame)) (pdu : List Byte) : Prop :=
  ∃ pre f, polls = pre ++ [some f] ∧ f.IsSingle ∧ pdu = f.bytesFrom 1 f.low

/-- After the first frame `ff` the calls complete its request. -/
def FromFirst (ff : Frame) (polls : List (Option Frame)) (pdu : List Byte) : Prop :=
  ff.IsFirst ∧ ∃ n bytes, Collects ff polls n 0 bytes ∧ ff.announced ≤ bytes.length ∧
    pdu = bytes.take ff.announced

/-- The receiver is idle, or it holds what has been collected since a first frame. -/
inductive Tracks (polls : List (Option Frame)) (r : Receiver) : Prop where
  | idle (hs : r.rxState = .idle) (ho : r.rxOffset = 0) (hl : r.rxPdu.length = 0)
  | waiting {pre mid : List (Option Frame)} {ff : Frame} {n t : Nat} {bytes : List Byte}
    (hp : polls = pre ++ some ff :: mid) (hc : Collects ff mid n t bytes)
    (hh : Holds ff n t bytes r)

theorem tracks_abort (polls : List (Option Frame)) (r : Receiver) : Tracks polls (abort r) :=
  .idle rfl rfl rfl

theorem Tracks.bounds {polls : List (Option Frame)} (h : Tracks polls r) :
    r.rxOffset ≤ r.rxPdu.length ∧ r.rxPdu.length.toNat ≤ maxPduLength := by
  cases h with
  | idle hs ho hl =>
    rw [ho, hl]
    exact ⟨BitVec.le_refl _, by decide⟩
  | waiting hp hc hh =>
    have hshort := hh.short
    have hle := hh.first.le
    rw [BitVec.le_def, hh.offset, hh.length]
    omega

/-- The receiver once a call has been counted: a request that has not timed out is in time. -/
inductive Counted (polls : List (Option Frame)) (r : Receiver) : Prop where
  | idle (hs : r.rxState = .idle) (ho : r.rxOffset = 0) (hl : r.rxPdu.length = 0)
  | waiting {pre mid : List (Option Frame)} {ff : Frame} {n t : Nat} {bytes : List Byte}
    (hp : polls = pre ++ some ff :: mid) (hc : Collects ff mid n t bytes)
    (ht : t + 1 < timeoutLoops.toNat) (hh : Holds ff n (t + 1) bytes r)

variable {polls : List (Option Frame)}

theorem counted_countCall (h : Tracks polls r) : Counted polls (countCall r) := by
  cases h with
  | idle hs ho hl =>
    unfold countCall
    rw [if_neg (by rw [hs]; decide)]
    exact .idle hs ho hl
  | @waiting pre mid ff n t bytes hp hc hh =>
    by_cases hlt : t + 1 < timeoutLoops.toNat
    · exact .waiting hp hc hlt (hh.countCall hlt)
    · have hnext := hh.timeout_succ
      unfold countCall
      rw [if_pos hh.state, if_pos (by rw [BitVec.le_def, hnext]; omega)]
      exact .idle rfl rfl rfl

theorem Counted.quiet {poll : Option Frame} (h : Counted polls r) (hq : Quiet poll) :
    Tracks (polls ++ [poll]) r := by
  cases h with
  | idle hs ho hl => exact .idle hs ho hl
  | waiting hp hc ht hh =>
    rw [hp, List.append_assoc, List.cons_append]
    exact .waiting rfl (.quiet hc hh.short ht hq) hh

/-- One call stays within the buffers and keeps track, and what it delivers has arrived. -/
theorem mainFunction_spec (h : Tracks polls r) (poll : Option Frame) :
    ∃ received r', mainFunction poll r = some (received, r') ∧ Tracks (polls ++ [poll]) r' ∧
      (received = true → FromSingle (polls ++ [poll]) r'.request.payload ∨
        ∃ pre ff mid, polls ++ [poll] = pre ++ some ff :: mid ∧
          FromFirst ff mid r'.request.payload) := by
  have hcounted := counted_countCall h
  unfold mainFunction
  generalize countCall r = r at hcounted
  have hnothing : Quiet poll → ∃ received r', some (false, r) = some (received, r') ∧
      Tracks (polls ++ [poll]) r' ∧ (received = true →
        FromSingle (polls ++ [poll]) r'.request.payload ∨
        ∃ pre ff mid, polls ++ [poll] = pre ++ some ff :: mid ∧
          FromFirst ff mid r'.request.payload) :=
    fun hq => ⟨false, r, rfl, hcounted.quiet hq, fun hno => by cases hno⟩
  cases poll with
  | none => exact hnothing trivial
  | some f =>
    dsimp only
    by_cases hheard : f.Heard
    case neg =>
      rw [if_pos (by
        by_contra hno
        rw [not_or, not_not] at hno
        exact hheard hno)]
      exact hnothing (.inl hheard)
    rw [if_neg (by
      rw [not_or, not_not]
      exact hheard)]
    by_cases h0 : f.kind = 0
    · rw [if_pos (single_iff.2 h0)]
      rcases receiveSingle_spec hheard h0 r with ⟨hs, request, heq, hpayload⟩ | ⟨hs, heq⟩
      · refine ⟨true, _, heq, .idle rfl rfl rfl, fun _ => .inl ⟨polls, f, rfl, hs, hpayload⟩⟩
      · rw [heq]
        exact hnothing (.inr (.inl ⟨h0, hs⟩))
    rw [if_neg (mt single_iff.1 h0)]
    by_cases h1 : f.kind = 1
    · rw [if_pos (first_iff.2 h1)]
      rcases receiveFirst_spec hheard h1 r with ⟨-, r', heq, hh⟩ | ⟨-, heq⟩
      · exact ⟨false, r', heq, .waiting rfl .first hh, fun hno => by cases hno⟩
      · exact ⟨false, _, heq, tracks_abort _ r, fun hno => by cases hno⟩
    rw [if_neg (mt first_iff.1 h1)]
    by_cases h2 : f.kind = 2
    · cases hcounted with
      | idle hs ho hl =>
        rw [if_neg (by rw [hs]; simp)]
        exact ⟨false, r, rfl, .idle hs ho hl, fun hno => by cases hno⟩
      | @waiting pre mid ff n t bytes hp hc ht hh =>
        rw [if_pos ⟨consecutive_iff.2 h2, hh.state⟩]
        have hpolls : polls ++ [some f] = pre ++ some ff :: (mid ++ [some f]) := by
          rw [hp, List.append_assoc, List.cons_append]
        rcases receiveConsecutive_spec hh f with ⟨-, heq⟩ | ⟨hsn, hwhole, hgo | ⟨hdone, r', heq, hpdu⟩⟩
        · exact ⟨false, _, heq, tracks_abort _ r, fun hno => by cases hno⟩
        · obtain ⟨r', heq, hh'⟩ := hgo
          refine ⟨false, r', heq, ?_, fun hno => by cases hno⟩
          rw [hpolls]
          exact .waiting rfl (.consecutive hc hh.short ht ⟨hheard, h2⟩ hsn hwhole) hh'
        · refine ⟨true, _, heq, tracks_abort _ r', fun _ => .inr ⟨pre, ff, _, hpolls, hh.first, _, _,
            .consecutive hc hh.short ht ⟨hheard, h2⟩ hsn hwhole, hdone, hpdu⟩⟩
    · rw [if_neg (fun hno => h2 (consecutive_iff.1 hno.1))]
      exact hnothing (.inr (.inr (by omega)))

/-! ## One request for each first frame -/

/-- Quiet calls are not consecutive frames. -/
theorem not_quiet (h : f.IsConsecutive) : ¬ Quiet (some f) := by
  have hkind := h.kind
  rintro (hno | ⟨hzero, -⟩ | hthree)
  · exact hno h.heard
  · omega
  · omega

/-- The last call of a collection. -/
theorem Collects.snoc_inv {poll : Option Frame} (h : Collects ff (polls ++ [poll]) n t bytes) :
    ∃ n' t' bytes', Collects ff polls n' t' bytes' ∧ bytes'.length < ff.announced ∧
      ((Quiet poll ∧ n = n' ∧ t = t' + 1 ∧ bytes = bytes') ∨
        ∃ f, poll = some f ∧ f.IsConsecutive ∧ n = n' + 1 ∧ t = 0 ∧
          bytes = bytes' ++ f.bytesFrom 1 7) := by
  generalize hp : polls ++ [poll] = all at h
  cases h with
  | first => simp at hp
  | quiet h hshort htime hq =>
    obtain ⟨rfl, hpoll⟩ := List.append_inj' hp rfl
    cases hpoll
    exact ⟨_, _, _, h, hshort, .inl ⟨hq, rfl, rfl, rfl⟩⟩
  | consecutive h hshort htime hf hsn hwhole =>
    obtain ⟨rfl, hpoll⟩ := List.append_inj' hp rfl
    cases hpoll
    exact ⟨_, _, _, h, hshort, .inr ⟨_, rfl, hf, rfl, rfl, rfl⟩⟩

/-- What has been collected depends on the calls alone. -/
theorem Collects.unique {n' t' : Nat} {bytes' : List Byte} (h : Collects ff polls n t bytes)
    (h' : Collects ff polls n' t' bytes') : n = n' ∧ t = t' ∧ bytes = bytes' := by
  induction h generalizing n' t' bytes' with
  | first =>
    generalize hp : ([] : List (Option Frame)) = all at h'
    cases h' with
    | first => exact ⟨rfl, rfl, rfl⟩
    | quiet => simp at hp
    | consecutive => simp at hp
  | quiet h hshort htime hq ih =>
    obtain ⟨m, s, bs, hm, -, ⟨-, rfl, rfl, rfl⟩ | ⟨f, rfl, hf, -⟩⟩ := h'.snoc_inv
    · obtain ⟨rfl, rfl, rfl⟩ := ih hm
      exact ⟨rfl, rfl, rfl⟩
    · exact absurd hq (not_quiet hf)
  | consecutive h hshort htime hf hsn hwhole ih =>
    obtain ⟨m, s, bs, hm, -, ⟨hq, -⟩ | ⟨f', hf', -, rfl, rfl, rfl⟩⟩ := h'.snoc_inv
    · exact absurd hq (not_quiet hf)
    · cases hf'
      obtain ⟨rfl, rfl, rfl⟩ := ih hm
      exact ⟨rfl, rfl, rfl⟩

/-- A collection that went on was not complete before. -/
theorem Collects.short_of_append {more : List (Option Frame)}
    (h : Collects ff (polls ++ more) n t bytes) (hmore : more ≠ []) :
    ∃ n' t' bytes', Collects ff polls n' t' bytes' ∧ bytes'.length < ff.announced := by
  induction more using List.reverseRecOn generalizing n t bytes with
  | nil => exact absurd rfl hmore
  | append_singleton more poll ih =>
    rw [← List.append_assoc] at h
    obtain ⟨n', t', bytes', h', hshort, -⟩ := h.snoc_inv
    by_cases hnil : more = []
    · rw [hnil, List.append_nil] at h'
      exact ⟨n', t', bytes', h', hshort⟩
    · exact ih h' hnil

theorem FromFirst.unique {more : List (Option Frame)} {pdu pdu' : List Byte}
    (h : FromFirst ff polls pdu) (h' : FromFirst ff (polls ++ more) pdu') : more = [] := by
  obtain ⟨-, n, bytes, hc, hdone, -⟩ := h
  obtain ⟨-, n', bytes', hc', -, -⟩ := h'
  by_contra hmore
  obtain ⟨m, s, bs, hm, hshort⟩ := hc'.short_of_append hmore
  obtain ⟨-, -, rfl⟩ := hc.unique hm
  omega

/-! ## Runs -/

/-- Any calls stay within the buffers and keep track; the results tell one call from the next. -/
theorem run_spec : ∀ {more polls : List (Option Frame)} {r : Receiver}, Tracks polls r →
    ∃ results r', run more r = some (results, r') ∧ results.length = more.length ∧
      Tracks (polls ++ more) r' ∧
      (results.getLast? = some true → FromSingle (polls ++ more) r'.request.payload ∨
        ∃ pre ff mid, polls ++ more = pre ++ some ff :: mid ∧
          FromFirst ff mid r'.request.payload) := by
  intro more
  induction more with
  | nil =>
    intro polls r h
    refine ⟨[], r, rfl, rfl, ?_, fun hno => by cases hno⟩
    rwa [List.append_nil]
  | cons poll more ih =>
    intro polls r h
    obtain ⟨received, r₁, hstep, htracks, hdelivers⟩ := mainFunction_spec h poll
    obtain ⟨results, r₂, hrun, hlength, htracks', hdelivers'⟩ := ih htracks
    have hpolls : polls ++ poll :: more = polls ++ [poll] ++ more := by simp
    refine ⟨received :: results, r₂, ?_, by simp [hlength], ?_, ?_⟩
    · show (mainFunction poll r).bind _ = _
      rw [hstep, Option.bind_some]
      show (run more r₁).bind _ = _
      rw [hrun]
      rfl
    · rwa [hpolls]
    · rw [hpolls]
      intro hlast
      cases more with
      | nil =>
        cases hrun
        rw [List.append_nil]
        exact hdelivers (by simpa using hlast)
      | cons next more =>
        apply hdelivers'
        cases results with
        | nil => cases hlength
        | cons x xs => simpa using hlast

/-- The last of the calls after `BootIsoTp_Init` returns true, with the request `pdu`. -/
def Delivers (r₀ : Receiver) (polls : List (Option Frame)) (pdu : List Byte) : Prop :=
  ∃ results r, run polls (abort r₀) = some (results, r) ∧ results.getLast? = some true ∧
    pdu = r.request.payload

/-- Reception is safe for any frames: no call leaves a buffer, and what a call delivers is a single
    frame or the request of one first frame, which is delivered once. -/
theorem reception_safe (r₀ : Receiver) :
    (∀ polls, ∃ results r, run polls (abort r₀) = some (results, r) ∧
      results.length = polls.length ∧ r.rxOffset ≤ r.rxPdu.length ∧
      r.rxPdu.length.toNat ≤ maxPduLength) ∧
    (∀ polls pdu, Delivers r₀ polls pdu → FromSingle polls pdu ∨
      ∃ pre ff mid, polls = pre ++ some ff :: mid ∧ FromFirst ff mid pdu) ∧
    (∀ pre ff mid more pdu pdu', Delivers r₀ (pre ++ some ff :: mid) pdu → FromFirst ff mid pdu →
      Delivers r₀ (pre ++ some ff :: (mid ++ more)) pdu' → FromFirst ff (mid ++ more) pdu' →
      more = []) := by
  refine ⟨fun polls => ?_, fun polls pdu hd => ?_, fun pre ff mid more pdu pdu' _ h _ h' =>
    h.unique h'⟩
  · obtain ⟨results, r, hrun, hlength, htracks, -⟩ := @run_spec polls _ _ (tracks_abort [] r₀)
    exact ⟨results, r, hrun, hlength, htracks.bounds⟩
  · obtain ⟨results, r, hrun, hlast, rfl⟩ := hd
    obtain ⟨results', r', hrun', -, -, hdelivers⟩ := @run_spec polls _ _ (tracks_abort [] r₀)
    cases hrun.symm.trans hrun'
    exact hdelivers hlast

/-- A request of eight bytes arrives in two frames. -/
example : (run
    [some ⟨requestId, 8, fun i => [0x10, 8, 1, 2, 3, 4, 5, 6].getD i 0⟩, none,
      some ⟨requestId, 3, fun i => [0x21, 7, 8].getD i 0⟩]
    ⟨.idle, ⟨0, fun _ => 0⟩, 0, 0, 0, ⟨0, fun _ => 0⟩⟩).map (fun x => (x.1, x.2.request.payload)) =
    some ([false, false, true], [1, 2, 3, 4, 5, 6, 7, 8]) := by
  decide +kernel

end BootIsoTp
