import BootloaderV2.IsoTp
import BootloaderV2.Lib.Framing
import BootloaderV2.Lib.Raising

/-!
# Transmission of ISO-TP

`BootIsoTp_Transmit` frame by frame, with the flow controls that it waits for, and the flow control
that `BootIsoTp_MainFunction` sends.  The bus is what the polls find on it and whether it accepts a
frame.
-/

namespace BootCan.Frame

def set (frame : Frame) (index : Nat) (value : Byte) : Frame :=
  { frame with data := fun i => if i = index then value else frame.data i }

/-- The copying loops: `count` bytes to `shift` and what follows. -/
def copy (frame : Frame) (shift count : Nat) (source : Nat → Byte) : Frame :=
  { frame with
    data := fun i => if shift ≤ i ∧ i < shift + count then source (i - shift) else frame.data i }

def bytes (frame : Frame) : List Byte := (List.range frame.dlc.toNat).map frame.data

end BootCan.Frame

namespace BootIsoTp

open BootCan (Frame)
open RaiseM (raise)

def responseId : Word := 0x7E8
def flowControl : Byte := 0x30
def rxBlockSize : Byte := 0
def rxStmin : Byte := 0

def clearFrame (id : Word) : Frame := ⟨id, 8, fun _ => 0⟩

/-- The frame of `BootIsoTp_SendFlowControl`. -/
def flowControlFrame : Frame :=
  (((clearFrame responseId).set 0 flowControl).set 1 rxBlockSize).set 2 rxStmin

/-- What `BootIsoTp_MainFunction` sends: a flow control after a first frame that it accepts. -/
def answer (poll : Option Frame) : Option Frame :=
  match poll with
  | none => none
  | some frame =>
    let total := ((frame.data 0 &&& 0x0F).zeroExtend 16) <<< 8 ||| (frame.data 1).zeroExtend 16
    if frame.id ≠ requestId ∨ frame.dlc = 0 then none
    else if frame.data 0 &&& typeMask ≠ firstFrame then none
    else if frame.dlc ≠ 8 ∨ total ≤ 7 ∨ BitVec.ofNat 16 maxPduLength < total then none
    else some flowControlFrame

structure Bus where
  polls : Nat → Option Frame
  accepts : Nat → Bool

inductive Event where
  | sent (frame : Frame)
  | granted (blockSize : Byte)

/-- How often the bus has been polled and offered a frame, what has been sent, and the block sizes of
    the flow controls that were taken. -/
structure Can where
  polled : Nat
  offered : Nat
  events : List Event

/-- To raise is to return false. -/
abbrev CanM : Type → Type := RaiseM Can Unit

variable (bus : Bus)

/-- `BootCan_Receive`. -/
def receive : CanM (Option Frame) := fun s =>
  some (.ok (bus.polls s.polled), { s with polled := s.polled + 1 })

/-- `BootCan_Transmit`. -/
def canTransmit (frame : Frame) : CanM Unit := fun s =>
  if bus.accepts s.offered then
    some (.ok (), { s with offered := s.offered + 1, events := s.events ++ [.sent frame] })
  else some (.error (), { s with offered := s.offered + 1 })

def granted (blockSize : Byte) : CanM Unit :=
  RaiseM.modify fun s => { s with events := s.events ++ [.granted blockSize] }

/-- `BootIsoTp_WaitCts` with the polls that are left. -/
def waitCts : Nat → CanM Byte
  | 0 => raise ()
  | timeout + 1 => do
    match ← receive bus with
    | none => waitCts timeout
    | some frame =>
      if frame.id ≠ requestId then waitCts timeout
      else if frame.dlc < 3 ∨ frame.data 0 ≠ flowControl ∨ frame.data 2 ≠ 0 then raise ()
      else
        granted (frame.data 1)
        return frame.data 1

/-- The loop of `BootIsoTp_Transmit`. -/
def sendLoop (response : Pdu) (offset : Nat) (sequence inBlock blockSize : Byte) : CanM Unit :=
  if offset < response.length.toNat then do
    let count := min 7 (response.length.toNat - offset)
    let frame := (clearFrame responseId).set 0 (consecutiveFrame ||| sequence)
    canTransmit bus (frame.copy 1 count fun i => response.data (offset + i))
    if offset + count < response.length.toNat ∧ blockSize ≠ 0 ∧ inBlock + 1 = blockSize then
      let blockSize ← waitCts bus timeoutLoops.toNat
      sendLoop response (offset + count) ((sequence + 1) &&& 0x0F) 0 blockSize
    else sendLoop response (offset + count) ((sequence + 1) &&& 0x0F) (inBlock + 1) blockSize
  else return ()
termination_by response.length.toNat - offset

/-- `BootIsoTp_Transmit`. -/
def transmitPdu (response : Pdu) : CanM Unit :=
  if response.length = 0 ∨ maxPduLength < response.length.toNat then raise ()
  else if 7 < response.length.toNat then do
    let frame := ((clearFrame responseId).set 0
      (firstFrame ||| (response.length >>> 8).truncate 8)).set 1 (response.length.truncate 8)
    canTransmit bus (frame.copy 2 6 response.data)
    let blockSize ← waitCts bus timeoutLoops.toNat
    sendLoop bus response 6 1 0 blockSize
  else
    let frame := (clearFrame responseId).set 0 (response.length.truncate 8)
    canTransmit bus (frame.copy 1 response.length.toNat response.data)

/-! ## The frames -/

variable {bus : Bus} {response : Pdu} {s : Can}

/-- What stands behind the first byte of a frame that was cleared. -/
theorem data_succ {id : Word} {pci : Byte} {count : Nat} {source : Nat → Byte} (i : Nat) :
    (((clearFrame id).set 0 pci).copy 1 count source).data (i + 1) =
      if i < count then source i else 0 := by
  show (if 1 ≤ i + 1 ∧ i + 1 < 1 + count then source (i + 1 - 1)
    else if i + 1 = 0 then pci else 0) = _
  rw [Nat.add_sub_cancel, if_neg (Nat.succ_ne_zero i)]
  by_cases hi : i < count
  · rw [if_pos (by omega), if_pos hi]
  · rw [if_neg (by omega), if_neg hi]

theorem payload_length (p : Pdu) : p.payload.length = p.length.toNat := by
  unfold Pdu.payload
  rw [List.length_map, List.length_range]

theorem bytes_eq_pad {frame : Frame} {bytes : List Byte} (hdlc : frame.dlc = 8)
    (hlen : bytes.length ≤ 8) (h : ∀ i, i < 8 → frame.data i = bytes.getD i 0) :
    frame.bytes = Framing.pad bytes := by
  unfold BootCan.Frame.bytes
  rw [hdlc]
  exact Framing.map_range_eq_pad hlen h

theorem getD_payload (p : Pdu) (offset size i : Nat) :
    ((p.payload.drop offset).take size).getD i 0 =
      if i < size ∧ offset + i < p.length.toNat then p.data (offset + i) else 0 :=
  Framing.getD_part p.data p.length.toNat offset size i

theorem truncate_length :
    (response.length.truncate 8 : Byte) = BitVec.ofNat 8 (response.payload.length % 256) := by
  apply BitVec.eq_of_toNat_eq
  rw [BitVec.truncate_eq_setWidth, BitVec.toNat_setWidth, BitVec.toNat_ofNat, payload_length]
  omega

theorem singleFrame_bytes (h : response.length.toNat ≤ 7) :
    (((clearFrame responseId).set 0 (response.length.truncate 8)).copy 1 response.length.toNat
      response.data).bytes = Framing.single response.payload := by
  apply bytes_eq_pad rfl
  · rw [List.length_cons, payload_length]
    omega
  · intro i hi
    have hlow := @truncate_length response
    cases i with
    | zero =>
      rw [payload_length, Nat.mod_eq_of_lt (by omega)] at hlow
      rw [List.getD_cons_zero, payload_length, ← hlow]
      rfl
    | succ i =>
      have hpart := getD_payload response 0 7 i
      rw [List.drop_zero, List.take_of_length_le (by rw [payload_length]; exact h)] at hpart
      rw [List.getD_cons_succ, hpart, data_succ, Nat.zero_add]
      by_cases hin : i < response.length.toNat
      · rw [if_pos hin, if_pos ⟨by omega, hin⟩]
      · rw [if_neg hin, if_neg fun h => hin h.2]

theorem firstFrame_bytes (hlong : 7 < response.length.toNat)
    (hmax : response.length.toNat ≤ maxPduLength) :
    ((((clearFrame responseId).set 0 (firstFrame ||| (response.length >>> 8).truncate 8)).set 1
      (response.length.truncate 8)).copy 2 6 response.data).bytes =
      Framing.first response.payload := by
  have h256 : maxPduLength = 256 := rfl
  have hlong' : 7 < response.payload.length := by
    rw [payload_length]
    exact hlong
  have hhigh : (response.length >>> 8).truncate 8 =
      (BitVec.ofNat 8 (response.payload.length / 256) : Byte) := by
    apply BitVec.eq_of_toNat_eq
    rw [BitVec.truncate_eq_setWidth, BitVec.toNat_setWidth, BitVec.toNat_ofNat, payload_length,
      BitVec.toNat_ushiftRight, Nat.shiftRight_eq_div_pow]
  have hor : ∀ x : Fin 2, firstFrame ||| BitVec.ofNat 8 x.val = BitVec.ofNat 8 (0x10 + x.val) := by
    decide
  have hsmall : response.payload.length / 256 < 2 := by
    rw [payload_length]
    omega
  rw [hhigh, truncate_length, hor ⟨response.payload.length / 256, hsmall⟩,
    ← Framing.pad_first hlong']
  apply bytes_eq_pad rfl
  · rw [Framing.length_first hlong']
  · intro i hi
    match i with
    | 0 => rfl
    | 1 => rfl
    | i + 2 =>
      have hpart := getD_payload response 0 6 i
      rw [List.drop_zero] at hpart
      unfold Framing.first
      rw [List.getD_cons_succ, List.getD_cons_succ, hpart, Nat.zero_add, if_pos (by omega)]
      exact if_pos (by omega)

theorem consecutiveFrame_bytes {k : Nat} :
    (((clearFrame responseId).set 0 (consecutiveFrame ||| BitVec.ofNat 8 (k % 16))).copy 1
      (min 7 (response.length.toNat - (7 * k - 1)))
      fun i => response.data (7 * k - 1 + i)).bytes =
      Framing.consecutive response.payload k := by
  have hpci : consecutiveFrame ||| BitVec.ofNat 8 (k % 16) = BitVec.ofNat 8 (0x20 + k % 16) :=
    Framing.consecutive_pci k
  rw [hpci]
  apply bytes_eq_pad rfl
  · rw [List.length_cons, Framing.length_chunk]
    omega
  · intro i hi
    cases i with
    | zero => rfl
    | succ i =>
      unfold Framing.chunk
      rw [List.getD_cons_succ, getD_payload, data_succ]
      by_cases hin : i < 7 ∧ 7 * k - 1 + i < response.length.toNat
      · rw [if_pos hin, if_pos (by omega)]
      · rw [if_neg hin, if_neg (by omega)]

/-! ## Flow control -/

/-- A flow control that lets the transmission go on, without a separation time. -/
structure IsCts (frame : Frame) : Prop where
  id : frame.id = requestId
  dlc : 3 ≤ frame.dlc
  pci : frame.data 0 = flowControl
  stmin : frame.data 2 = 0

/-- No frame, or the frame of another node. -/
def Other (poll : Option Frame) : Prop := ∀ frame, poll = some frame → frame.id ≠ requestId

/-- Whenever a flow control is waited for, one that clears to send comes in time. -/
def Cleared (polls : Nat → Option Frame) : Prop := ∀ start, ∃ n frame, n < timeoutLoops.toNat ∧
  polls (start + n) = some frame ∧ IsCts frame ∧ ∀ i, i < n → Other (polls (start + i))

theorem waitCts_eq {timeout n : Nat} {frame : Frame} (hn : n < timeout)
    (hpoll : bus.polls (s.polled + n) = some frame) (hcts : IsCts frame)
    (hothers : ∀ i, i < n → Other (bus.polls (s.polled + i))) :
    waitCts bus timeout s = some (.ok (frame.data 1),
      { s with polled := s.polled + n + 1, events := s.events ++ [.granted (frame.data 1)] }) := by
  induction n generalizing timeout s with
  | zero =>
    obtain ⟨timeout, rfl⟩ : ∃ t, timeout = t + 1 := ⟨timeout - 1, by omega⟩
    have hrefused : ¬ (frame.dlc < 3 ∨ frame.data 0 ≠ flowControl ∨ frame.data 2 ≠ 0) := by
      intro h
      rcases h with hdlc | hpci | hstmin
      · exact BitVec.not_lt.2 hcts.dlc hdlc
      · exact hpci hcts.pci
      · exact hstmin hcts.stmin
    show (match bus.polls s.polled with
      | none => waitCts bus timeout
      | some frame =>
        if frame.id ≠ requestId then waitCts bus timeout
        else if frame.dlc < 3 ∨ frame.data 0 ≠ flowControl ∨ frame.data 2 ≠ 0 then raise ()
        else do
          granted (frame.data 1)
          return frame.data 1) { s with polled := s.polled + 1 } = _
    rw [Nat.add_zero] at hpoll
    rw [hpoll]
    dsimp only
    rw [if_neg (not_not.2 hcts.id), if_neg hrefused]
    rfl
  | succ n ih =>
    obtain ⟨timeout, rfl⟩ : ∃ t, timeout = t + 1 := ⟨timeout - 1, by omega⟩
    have hfirst := hothers 0 (Nat.succ_pos n)
    have hskip : waitCts bus (timeout + 1) s = waitCts bus timeout { s with polled := s.polled + 1 } := by
      show (match bus.polls s.polled with
        | none => waitCts bus timeout
        | some frame =>
          if frame.id ≠ requestId then waitCts bus timeout
          else if frame.dlc < 3 ∨ frame.data 0 ≠ flowControl ∨ frame.data 2 ≠ 0 then raise ()
          else do
            granted (frame.data 1)
            return frame.data 1) { s with polled := s.polled + 1 } = _
      cases hnow : bus.polls s.polled with
      | none => rfl
      | some other =>
        dsimp only
        rw [if_pos (hfirst other hnow)]
    have hsum : ∀ i, s.polled + 1 + i = s.polled + (i + 1) := fun i => by omega
    rw [hskip, @ih { s with polled := s.polled + 1 } timeout (by omega)
      (by dsimp only; rw [hsum]; exact hpoll)
      fun i hi => by dsimp only; rw [hsum]; exact hothers (i + 1) (by omega)]
    dsimp only
    rw [hsum]

/-! ## Blocks -/

/-- The identifiers and the data of the frames that have been sent. -/
def framesOf (events : List Event) : List (Word × List Byte) :=
  events.filterMap fun event =>
    match event with
    | .sent frame => some (frame.id, frame.bytes)
    | .granted _ => none

theorem framesOf_append (events events' : List Event) :
    framesOf (events ++ events') = framesOf events ++ framesOf events' :=
  List.filterMap_append

/-- How many frames a flow control lets through; zero is no limit. -/
def credit (blockSize : Byte) : Option Nat := if blockSize = 0 then none else some blockSize.toNat

/-- No more frames are sent than are left, until the next flow control lets its number through. -/
def Obeys : Option Nat → List Event → Prop
  | _, [] => True
  | _, .granted blockSize :: events => Obeys (credit blockSize) events
  | none, .sent _ :: events => Obeys none events
  | some 0, .sent _ :: _ => False
  | some (n + 1), .sent _ :: events => Obeys (some n) events

theorem Obeys.suffix {limit : Option Nat} {events rest : List Event}
    (h : Obeys limit (events ++ rest)) : ∃ limit', Obeys limit' rest := by
  induction events generalizing limit with
  | nil => exact ⟨limit, h⟩
  | cons event events ih =>
    cases event with
    | granted blockSize => exact ih h
    | sent frame =>
      match limit with
      | none => exact ih h
      | some 0 => exact h.elim
      | some (n + 1) => exact ih h

/-- Between two flow controls there are no more frames than the first of them lets through. -/
theorem Obeys.length_le {n : Nat} {events rest : List Event} (h : Obeys (some n) (events ++ rest))
    (hsent : ∀ blockSize, Event.granted blockSize ∉ events) : events.length ≤ n := by
  induction events generalizing n with
  | nil => exact Nat.zero_le n
  | cons event events ih =>
    cases event with
    | granted blockSize => exact absurd List.mem_cons_self (hsent blockSize)
    | sent frame =>
      match n with
      | 0 => exact h.elim
      | n + 1 =>
        rw [List.length_cons]
        exact Nat.succ_le_succ (ih h fun b hb => hsent b (List.mem_cons_of_mem _ hb))

theorem canTransmit_eq {frame : Frame} (haccepts : ∀ i, bus.accepts i = true) :
    canTransmit bus frame s = some (.ok (),
      { s with offered := s.offered + 1, events := s.events ++ [.sent frame] }) := by
  unfold canTransmit
  rw [if_pos (haccepts _)]

/-- What the loop adds: the consecutive frames from number `k` on, in blocks. -/
structure Adds (response : Pdu) (k : Nat) (limit : Option Nat) (events events' : List Event) :
    Prop where
  intro ::
  added : ∃ more, events' = events ++ more ∧ Obeys limit more ∧
    framesOf more = (Framing.consecutives response.payload k).map fun data => (responseId, data)

/-- Of a block whose size is not zero some frames may have been sent. -/
def remaining (inBlock blockSize : Byte) : Option Nat :=
  if blockSize = 0 then none else some (blockSize.toNat - inBlock.toNat)

theorem Obeys.granted {limit : Option Nat} {blockSize : Byte} {events : List Event}
    (h : Obeys (remaining 0 blockSize) events) : Obeys limit (.granted blockSize :: events) := by
  match limit with
  | none => exact h
  | some 0 => exact h
  | some (n + 1) => exact h

theorem toNat_succ {inBlock blockSize : Byte} (h : inBlock < blockSize) :
    (inBlock + 1).toNat = inBlock.toNat + 1 := by
  have hlt := BitVec.lt_def.1 h
  have hone : (1 : Byte).toNat = 1 := rfl
  rw [BitVec.toNat_add, hone]
  exact Nat.mod_eq_of_lt (by omega)

/-- A frame uses up one of those that a block has left. -/
theorem Obeys.sent {inBlock blockSize : Byte} {frame : Frame} {more : List Event}
    (hblock : blockSize ≠ 0 → inBlock < blockSize)
    (h : Obeys (remaining (inBlock + 1) blockSize) more) :
    Obeys (remaining inBlock blockSize) (.sent frame :: more) := by
  unfold remaining at h ⊢
  by_cases hzero : blockSize = 0
  · rw [if_pos hzero] at h ⊢
    exact h
  · rw [if_neg hzero] at h ⊢
    have hlt := BitVec.lt_def.1 (hblock hzero)
    rw [toNat_succ (hblock hzero)] at h
    have hleft : blockSize.toNat - inBlock.toNat =
        blockSize.toNat - (inBlock.toNat + 1) + 1 := by omega
    rw [hleft]
    exact h

/-- The frame, and then what follows it. -/
theorem Adds.sent {k : Nat} {limit limit' : Option Nat} {frame : Frame} {grants : List Event}
    {events events' : List Event} (hk : k ≤ Framing.count response.payload)
    (hid : frame.id = responseId)
    (hbytes : frame.bytes = Framing.consecutive response.payload k) (hgrants : framesOf grants = [])
    (hobeys : ∀ more, Obeys limit' more → Obeys limit (.sent frame :: (grants ++ more)))
    (h : Adds response (k + 1) limit' (events ++ [.sent frame] ++ grants) events') :
    Adds response k limit events events' := by
  obtain ⟨more, hevents, hmore, hframes⟩ := h
  refine ⟨.sent frame :: (grants ++ more), ?_, hobeys more hmore, ?_⟩
  · rw [hevents, List.append_assoc, List.append_assoc]
    rfl
  · rw [Framing.consecutives_succ hk, List.map_cons, ← hframes, ← hbytes, ← hid]
    show (frame.id, frame.bytes) :: framesOf (grants ++ more) = _
    rw [framesOf_append, hgrants]
    rfl

theorem sendLoop_spec {k : Nat} {inBlock blockSize : Byte} (haccepts : ∀ i, bus.accepts i = true)
    (hcleared : Cleared bus.polls) (hlong : 7 < response.length.toNat) (hk : 1 ≤ k)
    (hle : k ≤ Framing.count response.payload + 1)
    (hblock : k ≤ Framing.count response.payload → blockSize ≠ 0 → inBlock < blockSize) :
    ∃ s', sendLoop bus response (min (7 * k - 1) response.length.toNat) (BitVec.ofNat 8 (k % 16))
        inBlock blockSize s = some (.ok (), s') ∧
      Adds response k (remaining inBlock blockSize) s.events s'.events := by
  have hlength := payload_length response
  have hcount : Framing.count response.payload = response.length.toNat / 7 := by
    unfold Framing.count
    rw [hlength]
  induction hrest : Framing.count response.payload + 1 - k generalizing k inBlock blockSize s with
  | zero =>
    have hdone : ¬ min (7 * k - 1) response.length.toNat < response.length.toNat := by omega
    unfold sendLoop
    rw [if_neg hdone]
    refine ⟨s, rfl, [], (List.append_nil _).symm, trivial, ?_⟩
    rw [Framing.consecutives_nil (by omega)]
    rfl
  | succ rest ih =>
    have hoffset : min (7 * k - 1) response.length.toNat = 7 * k - 1 := by omega
    have hlt : 7 * k - 1 < response.length.toNat := by omega
    have hnext : 7 * k - 1 + min 7 (response.length.toNat - (7 * k - 1)) =
        min (7 * (k + 1) - 1) response.length.toNat := by omega
    -- one turn of the loop: the next frame, and what the loop goes on with
    let frame := ((clearFrame responseId).set 0 (consecutiveFrame ||| BitVec.ofNat 8 (k % 16))).copy 1
      (min 7 (response.length.toNat - (7 * k - 1))) fun i => response.data (7 * k - 1 + i)
    have hbytes : frame.bytes = Framing.consecutive response.payload k := consecutiveFrame_bytes
    let sent : Can := { s with offered := s.offered + 1, events := s.events ++ [.sent frame] }
    have hstep : sendLoop bus response (7 * k - 1) (BitVec.ofNat 8 (k % 16)) inBlock blockSize s =
        (if min (7 * (k + 1) - 1) response.length.toNat < response.length.toNat ∧ blockSize ≠ 0 ∧
            inBlock + 1 = blockSize then do
          let blockSize ← waitCts bus timeoutLoops.toNat
          sendLoop bus response (min (7 * (k + 1) - 1) response.length.toNat)
            (BitVec.ofNat 8 ((k + 1) % 16)) 0 blockSize
        else sendLoop bus response (min (7 * (k + 1) - 1) response.length.toNat)
          (BitVec.ofNat 8 ((k + 1) % 16)) (inBlock + 1) blockSize) sent := by
      conv => lhs; unfold sendLoop
      rw [if_pos hlt, RaiseM.bind_ok (canTransmit_eq haccepts), hnext, Framing.next_number]
    rw [hoffset, hstep]
    have hkle : k ≤ Framing.count response.payload := by omega
    by_cases hend : min (7 * (k + 1) - 1) response.length.toNat < response.length.toNat ∧
        blockSize ≠ 0 ∧ inBlock + 1 = blockSize
    · -- the block is complete, and a flow control is waited for
      rw [if_pos hend]
      obtain ⟨n, other, hn, hpoll, hcts, hothers⟩ := hcleared sent.polled
      rw [RaiseM.bind_ok (waitCts_eq hn hpoll hcts hothers)]
      obtain ⟨s', hloop, hadds⟩ := @ih { sent with
        polled := sent.polled + n + 1
        events := sent.events ++ [.granted (other.data 1)] } (k + 1) 0 (other.data 1) (by omega)
        (by omega)
        (fun _ hne => BitVec.lt_def.2 (Nat.pos_of_ne_zero fun h => hne (BitVec.eq_of_toNat_eq h)))
        (by omega)
      exact ⟨s', hloop, hadds.sent hkle rfl hbytes rfl fun more hmore =>
        .sent (hblock hkle) (.granted hmore)⟩
    · rw [if_neg hend]
      -- the block goes on
      have hblock' : k + 1 ≤ Framing.count response.payload → blockSize ≠ 0 →
          inBlock + 1 < blockSize := by
        intro hmore hne
        have hlt := hblock hkle hne
        have hsucc := toNat_succ hlt
        rw [BitVec.lt_def] at hlt ⊢
        have hother : (inBlock + 1).toNat ≠ blockSize.toNat :=
          fun heq => hend ⟨by omega, hne, BitVec.eq_of_toNat_eq heq⟩
        omega
      obtain ⟨s', hloop, hadds⟩ := @ih sent (k + 1) (inBlock + 1) blockSize (by omega) (by omega)
        hblock' (by omega)
      have hsame : sent.events = s.events ++ [.sent frame] ++ [] := (List.append_nil _).symm
      rw [hsame] at hadds
      exact ⟨s', hloop, hadds.sent hkle rfl hbytes rfl fun more hmore => .sent (hblock hkle) hmore⟩

/-- With flow controls that come in time the segments of a response are sent, in blocks of the sizes
    that these announce; only the first frame is sent without one. -/
theorem transmitPdu_spec (haccepts : ∀ i, bus.accepts i = true) (hcleared : Cleared bus.polls)
    (hlength : 1 ≤ response.length.toNat ∧ response.length.toNat ≤ maxPduLength) :
    ∃ s' more, transmitPdu bus response s = some (.ok (), s') ∧ s'.events = s.events ++ more ∧
      Obeys (some 1) more ∧
      framesOf more = (Framing.segments response.payload).map fun data => (responseId, data) := by
  have hnonzero : ¬ (response.length = 0 ∨ maxPduLength < response.length.toNat) := by
    intro h
    rcases h with hzero | hmax
    · rw [hzero] at hlength
      exact absurd hlength.1 (by decide)
    · omega
  have hpayload := payload_length response
  unfold transmitPdu Framing.segments
  rw [if_neg hnonzero]
  by_cases hlong : 7 < response.length.toNat
  · rw [if_pos hlong, if_neg (by omega)]
    let frame := (((clearFrame responseId).set 0
      (firstFrame ||| (response.length >>> 8).truncate 8)).set 1 (response.length.truncate 8)).copy 2 6
      response.data
    have hbytes : frame.bytes = Framing.first response.payload := firstFrame_bytes hlong hlength.2
    let sent : Can := { s with offered := s.offered + 1, events := s.events ++ [.sent frame] }
    obtain ⟨n, other, hn, hpoll, hcts, hothers⟩ := hcleared sent.polled
    obtain ⟨s', hloop, more, hevents, hobeys, hframes⟩ := @sendLoop_spec bus response { sent with
      polled := sent.polled + n + 1
      events := sent.events ++ [.granted (other.data 1)] } 1 0 (other.data 1) haccepts hcleared hlong
      le_rfl (Nat.le_add_left 1 _) fun _ hne =>
        BitVec.lt_def.2 (Nat.pos_of_ne_zero fun h => hne (BitVec.eq_of_toNat_eq h))
    have hoffset : min (7 * 1 - 1) response.length.toNat = 6 := by omega
    rw [hoffset] at hloop
    refine ⟨s', .sent frame :: .granted (other.data 1) :: more, ?_, ?_, ?_, ?_⟩
    · rw [RaiseM.bind_ok (canTransmit_eq haccepts), RaiseM.bind_ok (waitCts_eq hn hpoll hcts hothers)]
      exact hloop
    · rw [hevents, List.append_assoc, List.append_assoc]
      rfl
    · exact hobeys
    · show (frame.id, frame.bytes) :: framesOf more = _
      rw [hframes, hbytes]
      rfl
  · rw [if_neg hlong, if_pos (by omega), canTransmit_eq haccepts]
    refine ⟨_, [.sent _], rfl, rfl, trivial, ?_⟩
    show [(_, _)] = [(responseId, Framing.single response.payload)]
    rw [singleFrame_bytes (Nat.le_of_not_lt hlong)]
    rfl

end BootIsoTp
