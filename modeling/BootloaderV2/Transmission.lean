import Mathlib.Data.BitVec
import BootloaderV2.Segmentation

/-!
# A response and its frames

What the queue takes for one response under any interleaving of the calls into `CanTp.c`: always a
part of the segmentation from the front, and all of it unless the transmission is aborted.
-/

namespace CanTp

open CanIf (CanFrame)
open Segmentation

variable {τ : Type} [Zero τ] {value : τ → Word} {now : τ} {accept : Bool} {frame : CanFrame}
  {payload : List Byte} {k : Nat}

/-! ## Calls -/

/-- The calls into the transport layer, each of which runs inside the critical section. -/
inductive Op (τ : Type) where
  | rxIndication (accept : Bool) (now : τ) (frame : CanFrame)
  | readRequest
  | transmit (accept : Bool) (now : τ) (pdu : DiagPdu)
  | mainFunction (accept : Bool) (now : τ)

/-- The state after the call, and the frames that the queue took. -/
def Op.exec (value : τ → Word) : Op τ → State τ → State τ × List CanFrame
  | .rxIndication accept now frame, s => CanTp.rxIndication accept now frame s
  | .readRequest, s => ((CanTp.readRequest s).2, [])
  | .transmit accept now pdu, s => (CanTp.transmit accept now pdu s).2
  | .mainFunction accept now, s => CanTp.mainFunction accept value now s

/-- The calls one after the other. -/
def runOps (value : τ → Word) : List (Op τ) → State τ → State τ × List CanFrame
  | [], s => (s, [])
  | op :: ops, s =>
    let r := op.exec value s
    let r' := runOps value ops r.1
    (r'.1, r.2 ++ r'.2)

theorem runOps_concat (ops : List (Op τ)) (op : Op τ) (s : State τ) :
    runOps value (ops ++ [op]) s =
      ((op.exec value (runOps value ops s).1).1,
        (runOps value ops s).2 ++ (op.exec value (runOps value ops s).1).2) := by
  induction ops generalizing s with
  | nil => simp [runOps]
  | cons head ops ih =>
    rw [List.cons_append, runOps, runOps, ih]
    simp

def pciType (frame : CanFrame) : Byte := frame.byte 0 &&& pciTypeMask

/-- The frames of a response among those that were queued; the rest are flow controls. -/
def responseFrames (frames : List CanFrame) : List CanFrame :=
  frames.filter fun frame => pciType frame ≠ pciFc

@[simp] theorem responseFrames_append (frames frames' : List CanFrame) :
    responseFrames (frames ++ frames') = responseFrames frames ++ responseFrames frames' :=
  List.filter_append ..

/-- A frame that `CanTp_RxIndication` passes on as a flow control with this status. -/
structure FlowControl (flowStatus : Byte) (frame : CanFrame) : Prop where
  id : frame.id = udsRequestId
  dlc : 3 ≤ frame.dlc ∧ frame.dlc ≤ 8
  pci : pciType frame = pciFc
  status : frame.byte 0 &&& pciLowNibbleMask = flowStatus

/-- The call hands a flow control with this status to a transmission that waits for one. -/
def Controls (flowStatus : Byte) (op : Op τ) (s : State τ) : Prop :=
  ∃ accept now frame, op = .rxIndication accept now frame ∧ FlowControl flowStatus frame ∧
    s.tx.state = .waitFc

/-- The main function finds that no flow control came in time. -/
def TimesOut (value : τ → Word) (op : Op τ) (s : State τ) : Prop :=
  ∃ accept now, op = .mainFunction accept now ∧ NBsExpired value now s.tx

/-- A flow control whose status is none of the three that are defined. -/
def ControlsReserved (op : Op τ) (s : State τ) : Prop :=
  ∃ flowStatus, flowStatus ≠ fcStatusCts ∧ flowStatus ≠ fcStatusWait ∧
    flowStatus ≠ fcStatusOverflow ∧ Controls flowStatus op s

/-- The transmission is given up. -/
def Aborts (value : τ → Word) (op : Op τ) (s : State τ) : Prop :=
  TimesOut value op s ∨ Controls fcStatusOverflow op s ∨ ControlsReserved op s

/-! ## The frames that are built -/

theorem pciType_flowControlFrame (flowStatus blockSize stmin : Byte) :
    pciType (flowControlFrame flowStatus blockSize stmin) = pciFc := by
  have hdec : ∀ x : Byte, (pciFc ||| (x &&& pciLowNibbleMask)) &&& pciTypeMask = pciFc := by
    decide +kernel
  exact hdec flowStatus

theorem pciType_consecutive (payload : List Byte) (k : Nat) :
    pciType (consecutive payload k) = pciCf := by
  have hdec : ∀ x : Fin 16, BitVec.ofNat 8 (0x20 + x.val) &&& pciTypeMask = pciCf := by
    decide +kernel
  exact hdec ⟨k % 16, Nat.mod_lt k (by decide)⟩

theorem pciType_first (h : payload.length < 4096) : pciType (first payload) = pciFf := by
  have hdec : ∀ x : Fin 16, BitVec.ofNat 8 (0x10 + x.val) &&& pciTypeMask = pciFf := by
    decide +kernel
  exact hdec ⟨payload.length / 256, by omega⟩

theorem responseFrames_transmitCanFrame (h : pciType frame ≠ pciFc) :
    responseFrames (transmitCanFrame accept frame) = transmitCanFrame accept frame := by
  unfold responseFrames transmitCanFrame
  cases accept with
  | false => rfl
  | true => simp [h]

/-- A frame that is queued and is none of flow control belongs to a response. -/
theorem responseFrames_singleton (h : pciType frame ≠ pciFc) : responseFrames [frame] = [frame] :=
  @responseFrames_transmitCanFrame true frame h

theorem responseFrames_consecutive (payload : List Byte) (k : Nat) :
    responseFrames [consecutive payload k] = [consecutive payload k] := by
  apply responseFrames_singleton
  rw [pciType_consecutive]
  decide

theorem responseFrames_sendFlowControl (flowStatus blockSize stmin : Byte) :
    responseFrames (sendFlowControl accept flowStatus blockSize stmin) = [] := by
  unfold responseFrames sendFlowControl transmitCanFrame
  cases accept with
  | false => rfl
  | true => simp [pciType_flowControlFrame]

/-! ## Reception and the transmitter -/

/-- A frame that is received concerns the transmitter only if it is a flow control. -/
theorem rxIndication_tx (accept : Bool) (now : τ) (frame : CanFrame) (s : State τ) :
    (rxIndication accept now frame s).1.tx = s.tx ∨
      (frame.id = udsRequestId ∧ frame.dlc ≤ 8 ∧ pciType frame = pciFc ∧
        (rxIndication accept now frame s).1.tx = handleFlowControl now frame s.tx) := by
  unfold rxIndication
  dsimp only
  split
  · exact .inl rfl
  rename_i hid
  push Not at hid
  split
  · exact .inl (handleSingleFrame_tx frame s)
  split
  · exact .inl (handleFirstFrame_tx accept now frame s)
  split
  · exact .inl (handleConsecutiveFrame_tx now frame s)
  split
  · rename_i hfc
    exact .inr ⟨hid.1, by simpa using hid.2.2, hfc, rfl⟩
  · exact .inl rfl

/-- What it sends are flow controls. -/
theorem responseFrames_rxIndication (accept : Bool) (now : τ) (frame : CanFrame) (s : State τ) :
    responseFrames (rxIndication accept now frame s).2 = [] := by
  unfold rxIndication
  dsimp only
  split
  · rfl
  split
  · rfl
  split
  · unfold handleFirstFrame
    dsimp only
    split
    · rfl
    split
    · rfl
    split
    · exact responseFrames_sendFlowControl _ _ _
    · exact responseFrames_sendFlowControl _ _ _
  split
  · rfl
  split
  · rfl
  · rfl

/-- The cases of a flow control. -/
theorem handleFlowControl_cases (now : τ) (frame : CanFrame) (tx : Tx τ) :
    handleFlowControl now frame tx = tx ∨
    (3 ≤ frame.dlc ∧ tx.state = .waitFc ∧
      ((frame.byte 0 &&& pciLowNibbleMask = fcStatusCts ∧
          handleFlowControl now frame tx = { tx with
            blockSize := frame.byte 1
            blockCounter := 0
            stminMs := decodeStmin (frame.byte 2)
            lastActivityTick := now
            lastCfTick := now
            state := .sendCf }) ∨
        (frame.byte 0 &&& pciLowNibbleMask = fcStatusWait ∧
          handleFlowControl now frame tx = { tx with lastActivityTick := now }) ∨
        (frame.byte 0 &&& pciLowNibbleMask ≠ fcStatusCts ∧
          frame.byte 0 &&& pciLowNibbleMask ≠ fcStatusWait ∧
          handleFlowControl now frame tx = resetTx tx))) := by
  unfold handleFlowControl
  dsimp only
  split
  · exact .inl rfl
  rename_i hwait
  push Not at hwait
  refine .inr ⟨by simpa using hwait.1, hwait.2, ?_⟩
  split
  · rename_i hcts
    exact .inl ⟨hcts, rfl⟩
  rename_i hcts
  split
  · rename_i hwt
    exact .inr (.inl ⟨hwt, rfl⟩)
  rename_i hwt
  right; right
  refine ⟨hcts, hwt, ?_⟩
  split <;> rfl

/-! ## One transmission -/

namespace Tx

/-- The transmitter has queued the first `k` frames of the payload, and more are to come. -/
structure Sends (payload : List Byte) (k : Nat) (tx : Tx τ) : Prop where
  busy : tx.state ≠ .idle
  pdu : tx.pdu.payload = payload
  pos : 0 < k
  offset : tx.offset.toNat = 7 * k - 1
  nextSn : tx.nextSn.toNat = k % 16
  more : k ≤ count payload
  length : payload.length ≤ diagMaxPduLength

variable {tx : Tx τ}

omit [Zero τ] in
theorem Sends.length_pdu (h : Sends payload k tx) : tx.pdu.length.toNat = payload.length := by
  rw [← DiagPdu.length_payload, h.pdu]

omit [Zero τ] in
theorem Sends.offset_lt (h : Sends payload k tx) : 7 * k - 1 < payload.length := by
  have hmore := h.more
  have hpos := h.pos
  unfold count at hmore
  omega

omit [Zero τ] in
/-- As many bytes are copied as there are left, at most seven. -/
theorem Sends.bytesToCopy (h : Sends payload k tx) :
    (bytesToCopy tx).toNat = min (payload.length - (7 * k - 1)) 7 := by
  have hlt := h.offset_lt
  have hlen := h.length
  have hremaining : (tx.pdu.length.setWidth 32 - tx.offset.setWidth 32 : Word).toNat =
      payload.length - (7 * k - 1) := by
    rw [BitVec.toNat_sub_of_le]
    · rw [BitVec.toNat_setWidth, BitVec.toNat_setWidth, h.length_pdu, h.offset]
      unfold diagMaxPduLength at hlen
      omega
    · rw [BitVec.le_def, BitVec.toNat_setWidth, BitVec.toNat_setWidth, h.length_pdu, h.offset]
      unfold diagMaxPduLength at hlen
      omega
  unfold CanTp.bytesToCopy
  dsimp only
  split
  · rename_i hsmall
    rw [BitVec.lt_def, hremaining] at hsmall
    rw [hremaining]
    have hseven : (BitVec.ofNat 32 cfMaxPayload).toNat = 7 := rfl
    omega
  · rename_i hlarge
    rw [BitVec.lt_def, hremaining] at hlarge
    have hseven : (BitVec.ofNat 32 cfMaxPayload).toNat = 7 := rfl
    rw [hseven] at hlarge ⊢
    omega

omit [Zero τ] in
/-- The next frame is the one with the next number. -/
theorem Sends.consecutiveFrame (h : Sends payload k tx) :
    CanTp.consecutiveFrame tx.nextSn tx.offset.toNat (CanTp.bytesToCopy tx).toNat tx.pdu =
      consecutive payload k := by
  rw [← h.pdu]
  apply consecutiveFrame_eq
  · rw [h.nextSn, Nat.mod_mod]
  · exact h.offset
  · rw [h.bytesToCopy, h.length_pdu, h.offset]

/-- Once it is queued the transmitter has one frame less to send, or is done. -/
theorem Sends.afterConsecutiveFrame (h : Sends payload k tx) (now : τ) :
    (Sends payload (k + 1) (afterConsecutiveFrame now tx)) ∨
      (k = count payload ∧ (afterConsecutiveFrame now tx).state = .idle) := by
  have hlt := h.offset_lt
  have hlen := h.length
  have hpos := h.pos
  unfold diagMaxPduLength at hlen
  have hoffset : (tx.offset + (CanTp.bytesToCopy tx).setWidth 16).toNat =
      min payload.length (7 * (k + 1) - 1) := by
    rw [BitVec.toNat_add, BitVec.toNat_setWidth, h.bytesToCopy, h.offset]
    omega
  have hsn : ((tx.nextSn + 1) &&& pciLowNibbleMask).toNat = (k + 1) % 16 := by
    have hdec : ∀ x : Byte, ((x + 1) &&& pciLowNibbleMask).toNat = (x.toNat + 1) % 16 := by
      decide +kernel
    rw [hdec, h.nextSn]
    omega
  unfold CanTp.afterConsecutiveFrame
  dsimp only
  by_cases hdone : tx.pdu.length ≤ tx.offset + (CanTp.bytesToCopy tx).setWidth 16
  · right
    rw [if_pos hdone]
    refine ⟨?_, rfl⟩
    rw [BitVec.le_def, hoffset, h.length_pdu] at hdone
    have hmore := h.more
    unfold count at hmore ⊢
    omega
  · left
    rw [if_neg hdone]
    rw [BitVec.le_def, hoffset, h.length_pdu] at hdone
    have hmore : k + 1 ≤ count payload := by
      unfold count
      omega
    split
    · exact ⟨TxState.noConfusion, h.pdu, by omega, by rw [hoffset]; omega, hsn, hmore, h.length⟩
    · exact ⟨h.busy, h.pdu, by omega, by rw [hoffset]; omega, hsn, hmore, h.length⟩

/-- What a call does to a transmission: nothing, one frame more, or an end. -/
inductive Progress (payload : List Byte) (k : Nat) (aborts : Prop) (tx' : Tx τ) :
    List CanFrame → Prop
  | same : Sends payload k tx' → Progress payload k aborts tx' []
  | sent : Sends payload (k + 1) tx' → Progress payload k aborts tx' [consecutive payload k]
  | finished : k = count payload → tx'.state = .idle →
      Progress payload k aborts tx' [consecutive payload k]
  | aborted : aborts → tx'.state = .idle → Progress payload k aborts tx' []

theorem Sends.advanceTx (h : Sends payload k tx) (accept : Bool) (now : τ) :
    Progress payload k (NBsExpired value now tx) (advanceTx accept value now tx).1
      (advanceTx accept value now tx).2 := by
  unfold CanTp.advanceTx
  by_cases hexpired : NBsExpired value now tx
  · have hdue : ¬ CfDue value now (resetTx tx) := fun hdue => TxState.noConfusion hdue.1
    simp only [if_pos hexpired, if_neg hdue]
    exact .aborted hexpired rfl
  · simp only [if_neg hexpired]
    by_cases hdue : CfDue value now tx
    · rw [if_pos hdue]
      unfold sendNextConsecutiveFrame
      dsimp only
      rw [h.consecutiveFrame]
      cases accept with
      | false => exact .same h
      | true =>
        rcases h.afterConsecutiveFrame now with hnext | ⟨hlast, hidle⟩
        · exact .sent hnext
        · exact .finished hlast hidle
    · rw [if_neg hdue]
      exact .same h

/-- Only an overflow or a reserved status ends a transmission. -/
theorem Sends.handleFlowControl (h : Sends payload k tx) (now : τ) (frame : CanFrame) :
    Sends payload k (handleFlowControl now frame tx) ∨
      ((handleFlowControl now frame tx).state = .idle ∧ 3 ≤ frame.dlc ∧ tx.state = .waitFc ∧
        frame.byte 0 &&& pciLowNibbleMask ≠ fcStatusCts ∧
        frame.byte 0 &&& pciLowNibbleMask ≠ fcStatusWait) := by
  rcases handleFlowControl_cases now frame tx with
    heq | ⟨hdlc, hwait, ⟨-, heq⟩ | ⟨-, heq⟩ | ⟨hcts, hwt, heq⟩⟩
  · left
    rw [heq]
    exact h
  · left
    rw [heq]
    exact ⟨TxState.noConfusion, h.pdu, h.pos, h.offset, h.nextSn, h.more, h.length⟩
  · left
    rw [heq]
    exact ⟨h.busy, h.pdu, h.pos, h.offset, h.nextSn, h.more, h.length⟩
  · right
    rw [heq]
    exact ⟨rfl, hdlc, hwait, hcts, hwt⟩

end Tx

open Tx

theorem Tx.Sends.rxIndication {s : State τ} (h : Sends payload k s.tx) (accept : Bool) (now : τ)
    (frame : CanFrame) :
    Progress payload k (Aborts value (.rxIndication accept now frame) s)
      (rxIndication accept now frame s).1.tx
      (responseFrames (CanTp.rxIndication accept now frame s).2) := by
  rw [responseFrames_rxIndication]
  rcases rxIndication_tx accept now frame s with heq | ⟨hid, hdlc, hpci, heq⟩
  · rw [heq]
    exact .same h
  · rcases h.handleFlowControl now frame with hsame | ⟨hidle, hthree, hwait, hcts, hwt⟩
    · rw [← heq] at hsame
      exact .same hsame
    · rw [← heq] at hidle
      refine .aborted (.inr ?_) hidle
      by_cases hov : frame.byte 0 &&& pciLowNibbleMask = fcStatusOverflow
      · left
        exact ⟨accept, now, frame, rfl, ⟨hid, ⟨hthree, hdlc⟩, hpci, hov⟩, hwait⟩
      · right
        exact ⟨_, hcts, hwt, hov, accept, now, frame, rfl,
          ⟨hid, ⟨hthree, hdlc⟩, hpci, rfl⟩, hwait⟩

/-- One call. -/
theorem Tx.Sends.exec {s : State τ} (h : Sends payload k s.tx) (op : Op τ) :
    Progress payload k (Aborts value op s) (op.exec value s).1.tx
      (responseFrames (op.exec value s).2) := by
  cases op with
  | rxIndication accept now frame => exact h.rxIndication accept now frame
  | readRequest =>
    have htx : (readRequest s).2.tx = s.tx := by
      unfold CanTp.readRequest
      split <;> rfl
    show Progress payload k _ (readRequest s).2.tx []
    rw [htx]
    exact .same h
  | transmit accept now pdu =>
    have hrefused : transmit accept now pdu s = (false, s, []) := by
      unfold CanTp.transmit
      rw [if_pos h.busy, ite_self]
    show Progress payload k _ (transmit accept now pdu s).2.1.tx
      (responseFrames (transmit accept now pdu s).2.2)
    rw [hrefused]
    exact .same h
  | mainFunction accept now =>
    have hprogress : Progress payload k (NBsExpired value now s.tx)
      (CanTp.advanceTx accept value now s.tx).1 (CanTp.advanceTx accept value now s.tx).2 :=
      h.advanceTx accept now
    show Progress payload k _ (CanTp.advanceTx accept value now s.tx).1
      (responseFrames (CanTp.advanceTx accept value now s.tx).2)
    have hfilter := responseFrames_consecutive payload k
    generalize CanTp.advanceTx accept value now s.tx = result at hprogress
    obtain ⟨tx', frames⟩ := result
    cases hprogress with
    | same hs => exact .same hs
    | sent hs =>
      dsimp only
      rw [hfilter]
      exact .sent hs
    | finished hlast hidle =>
      dsimp only
      rw [hfilter]
      exact .finished hlast hidle
    | aborted habort hidle => exact .aborted (.inl ⟨accept, now, rfl, habort⟩) hidle

/-- The transmitter is busy before each of the calls. -/
def InProgress (value : τ → Word) (ops : List (Op τ)) (s : State τ) : Prop :=
  ∀ n < ops.length, (runOps value (ops.take n) s).1.tx.state ≠ .idle

theorem InProgress.of_concat {ops : List (Op τ)} {op : Op τ} {s : State τ}
    (h : InProgress value (ops ++ [op]) s) :
    InProgress value ops s ∧ (runOps value ops s).1.tx.state ≠ .idle := by
  constructor
  · intro n hn
    have hn' := h n (by rw [List.length_append]; omega)
    rw [List.take_append_of_le_length hn.le] at hn'
    exact hn'
  · have hlast := h ops.length (by simp)
    rw [List.take_append_of_le_length le_rfl, List.take_length] at hlast
    exact hlast

/-- Where a transmission stands after the calls. -/
inductive Standing (value : τ → Word) (payload : List Byte) (ops : List (Op τ)) (s : State τ) :
    Nat → Prop
  | sends {k : Nat} : Sends payload k (runOps value ops s).1.tx → Standing value payload ops s k
  | finished {k : Nat} : (runOps value ops s).1.tx.state = .idle → count payload < k →
      Standing value payload ops s k
  | aborted {k : Nat} {before : List (Op τ)} {op : Op τ} :
      (runOps value ops s).1.tx.state = .idle → ops = before ++ [op] →
      Aborts value op (runOps value before s).1 → Standing value payload ops s k

/-- The calls queue some more frames of the response, in their order. -/
theorem Tx.Sends.runOps {s : State τ} (hlen : 7 < payload.length) (h : Sends payload k s.tx)
    (ops : List (Op τ)) (hbusy : InProgress value ops s) :
    ∃ k', Standing value payload ops s k' ∧
      (segments payload).take k ++ responseFrames (runOps value ops s).2 =
        (segments payload).take k' := by
  induction ops using List.reverseRecOn with
  | nil => exact ⟨k, .sends h, List.append_nil _⟩
  | append_singleton ops op ih =>
    obtain ⟨hbefore, hnow⟩ := hbusy.of_concat
    obtain ⟨k', hstanding, htake⟩ := ih hbefore
    have hconcat := @runOps_concat _ _ value ops op s
    cases hstanding with
    | finished hidle _ => exact absurd hidle hnow
    | aborted hidle _ _ => exact absurd hidle hnow
    | sends hsends =>
      have hprogress := @hsends.exec _ _ value _ _ _ op
      have hframes : (segments payload).take k ++
          responseFrames (CanTp.runOps value (ops ++ [op]) s).2 = (segments payload).take k' ++
            responseFrames (op.exec value (CanTp.runOps value ops s).1).2 := by
        rw [hconcat, responseFrames_append, ← List.append_assoc, htake]
      have hnext := take_succ_segments hlen hsends.pos hsends.more
      rw [hframes]
      have htx : (CanTp.runOps value (ops ++ [op]) s).1 =
          (op.exec value (CanTp.runOps value ops s).1).1 := by
        rw [hconcat]
      generalize hr : responseFrames (op.exec value (CanTp.runOps value ops s).1).2 = frames
        at hprogress
      cases hprogress with
      | same hs =>
        refine ⟨k', .sends ?_, List.append_nil _⟩
        rw [htx]
        exact hs
      | sent hs =>
        refine ⟨k' + 1, .sends ?_, hnext.symm⟩
        rw [htx]
        exact hs
      | finished hlast hidle =>
        refine ⟨k' + 1, .finished ?_ (by omega), hnext.symm⟩
        rw [htx]
        exact hidle
      | aborted habort hidle =>
        refine ⟨k', .aborted ?_ rfl habort, List.append_nil _⟩
        rw [htx]
        exact hidle

/-! ## Blocks -/

/-- How many of the frames are consecutive ones. -/
def consecutives (frames : List CanFrame) : Nat :=
  frames.countP fun frame => pciType frame = pciCf

@[simp] theorem consecutives_append (frames frames' : List CanFrame) :
    consecutives (frames ++ frames') = consecutives frames + consecutives frames' :=
  List.countP_append

theorem consecutives_transmitCanFrame (h : pciType frame ≠ pciCf) :
    consecutives (transmitCanFrame accept frame) = 0 := by
  unfold consecutives transmitCanFrame
  cases accept with
  | false => rfl
  | true => simp [h]

theorem consecutives_rxIndication (accept : Bool) (now : τ) (frame : CanFrame) (s : State τ) :
    consecutives (rxIndication accept now frame s).2 = 0 := by
  have hnone := responseFrames_rxIndication accept now frame s
  unfold consecutives
  rw [List.countP_eq_zero]
  intro sent hmem
  have hfc : pciType sent = pciFc := by
    by_contra hne
    have hin : sent ∈ responseFrames (rxIndication accept now frame s).2 :=
      List.mem_filter.2 ⟨hmem, by simpa using hne⟩
    rw [hnone] at hin
    exact absurd hin List.not_mem_nil
  rw [hfc]
  decide

/-- The tester asks for blocks of `b` frames; the transmission takes note. -/
def Grants (b : Byte) (op : Op τ) (s : State τ) : Prop :=
  ∃ accept now frame, op = .rxIndication accept now frame ∧ FlowControl fcStatusCts frame ∧
    s.tx.state = .waitFc ∧ frame.byte 1 = b

/-- None of the calls accepts a further block. -/
def NoGrant (value : τ → Word) : List (Op τ) → State τ → Prop
  | [], _ => True
  | op :: ops, s => ¬ Controls fcStatusCts op s ∧ NoGrant value ops (op.exec value s).1

/-- `c` frames of a block of `b` are queued; more follow only while the block lasts. -/
structure Limited (b : Byte) (c : Nat) (tx : Tx τ) : Prop where
  le : c ≤ b.toNat
  sending : tx.state = .sendCf →
    tx.blockSize = b ∧ tx.blockCounter.toNat = c ∧ c < b.toNat

variable {b : Byte} {c : Nat}

omit [Zero τ] in
theorem Limited.of_state {tx tx' : Tx τ} (h : Limited b c tx) (hne : tx'.state ≠ .sendCf) :
    Limited b c tx' :=
  ⟨h.le, fun hs => absurd hs hne⟩

theorem Limited.advanceTx {tx : Tx τ} (h : Limited b c tx) (accept : Bool) (now : τ) :
    Limited b (c + consecutives (advanceTx accept value now tx).2)
      (advanceTx accept value now tx).1 := by
  unfold CanTp.advanceTx
  by_cases hexpired : NBsExpired value now tx
  · have hdue : ¬ CfDue value now (resetTx tx) := fun hdue => TxState.noConfusion hdue.1
    simp only [if_pos hexpired, if_neg hdue]
    exact h.of_state TxState.noConfusion
  simp only [if_neg hexpired]
  by_cases hdue : CfDue value now tx
  · obtain ⟨hsize, hcounter, hlt⟩ := h.sending hdue.1
    rw [if_pos hdue]
    unfold sendNextConsecutiveFrame
    dsimp only
    cases accept with
    | false => exact h
    | true =>
      have hone : consecutives (transmitCanFrame true (consecutiveFrame tx.nextSn
          tx.offset.toNat (bytesToCopy tx).toNat tx.pdu)) = 1 := by
        have hpci : pciType (consecutiveFrame tx.nextSn tx.offset.toNat (bytesToCopy tx).toNat
            tx.pdu) = pciCf := by
          have hdec : ∀ x : Byte, (pciCf ||| (x &&& pciLowNibbleMask)) &&& pciTypeMask = pciCf := by
            decide +kernel
          exact hdec tx.nextSn
        unfold consecutives transmitCanFrame
        simp [hpci]
      rw [hone, if_pos rfl]
      have hnext : (tx.blockCounter + 1).toNat = c + 1 := by
        have hb := b.isLt
        rw [BitVec.toNat_add, hcounter, show (1 : Byte).toNat = 1 from rfl,
          Nat.mod_eq_of_lt (by omega)]
      refine ⟨hlt, fun hsending => ?_⟩
      unfold afterConsecutiveFrame at hsending ⊢
      dsimp only at hsending ⊢
      split at hsending
      · exact TxState.noConfusion hsending
      · rename_i hmore
        rw [if_neg hmore]
        split at hsending
        · exact TxState.noConfusion hsending
        · rename_i hblock
          -- the block is not full, or the state would be that of waiting
          rw [if_neg hblock]
          have hnz : tx.blockSize ≠ 0 := by
            intro hz
            rw [hsize] at hz
            rw [hz] at hlt
            exact absurd hlt (Nat.not_lt_zero c)
          have hfull : ¬ tx.blockSize ≤ tx.blockCounter + 1 := fun hfull => hblock ⟨hnz, hfull⟩
          rw [BitVec.le_def, hnext, hsize] at hfull
          exact ⟨hsize, hnext, by omega⟩
  · rw [if_neg hdue]
    exact h

omit [Zero τ] in
theorem Limited.transmit {s : State τ} (h : Limited b c s.tx) (accept : Bool) (now : τ)
    (pdu : DiagPdu) :
    Limited b (c + consecutives (transmit accept now pdu s).2.2)
      (transmit accept now pdu s).2.1.tx := by
  unfold CanTp.transmit
  split
  · exact h
  rename_i hlength
  push Not at hlength
  split
  · exact h
  rename_i hidle
  split
  · rename_i hsingle
    have hpci : pciType (singleFrame pdu) ≠ pciCf := by
      rw [singleFrame_eq hsingle]
      have hdec : ∀ x : Fin 8, BitVec.ofNat 8 x.val &&& pciTypeMask ≠ pciCf := by decide
      have hlt : pdu.payload.length < 8 := by
        rw [DiagPdu.length_payload]
        exact Nat.lt_succ_of_le hsingle
      exact hdec ⟨pdu.payload.length, hlt⟩
    dsimp only
    rw [consecutives_transmitCanFrame hpci]
    exact h
  · have hpci : pciType (firstFrame pdu) ≠ pciCf := by
      have hdec : ∀ x : Byte, (pciFf ||| (x &&& pciLowNibbleMask)) &&& pciTypeMask ≠ pciCf := by
        decide +kernel
      exact hdec _
    dsimp only
    rw [consecutives_transmitCanFrame hpci]
    apply h.of_state
    unfold startMultiFrameTransmit
    dsimp only
    split
    · exact TxState.noConfusion
    · intro hsending
      exact hidle (fun hi => by rw [hi] at hsending; cases hsending)

/-- A call that accepts no block stays within the one that was granted last. -/
theorem Limited.exec {s : State τ} (h : Limited b c s.tx) {op : Op τ}
    (hno : ¬ Controls fcStatusCts op s) :
    Limited b (c + consecutives (op.exec value s).2) (op.exec value s).1.tx := by
  cases op with
  | rxIndication accept now frame =>
    show Limited b (c + consecutives (rxIndication accept now frame s).2)
      (rxIndication accept now frame s).1.tx
    rw [consecutives_rxIndication]
    rcases rxIndication_tx accept now frame s with heq | ⟨hid, hdlc, hpci, heq⟩
    · rw [heq]
      exact h
    rw [heq]
    rcases handleFlowControl_cases now frame s.tx with
      heq | ⟨hthree, hwait, ⟨hcts, -⟩ | ⟨-, heq⟩ | ⟨-, -, heq⟩⟩
    · rw [heq]
      exact h
    · exact absurd ⟨accept, now, frame, rfl, ⟨hid, ⟨hthree, hdlc⟩, hpci, hcts⟩, hwait⟩ hno
    · rw [heq]
      exact ⟨h.le, h.sending⟩
    · rw [heq]
      exact h.of_state TxState.noConfusion
  | readRequest =>
    have htx : (readRequest s).2.tx = s.tx := by
      unfold CanTp.readRequest
      split <;> rfl
    show Limited b c (readRequest s).2.tx
    rw [htx]
    exact h
  | transmit accept now pdu => exact h.transmit accept now pdu
  | mainFunction accept now => exact h.advanceTx accept now

theorem Limited.runOps (ops : List (Op τ)) :
    ∀ {s : State τ} {c : Nat}, Limited b c s.tx → NoGrant value ops s →
      c + consecutives (runOps value ops s).2 ≤ b.toNat := by
  induction ops with
  | nil => exact fun h _ => h.le
  | cons op ops ih =>
    intro s c h hno
    have hexec : Limited b (c + consecutives (op.exec value s).2) (op.exec value s).1.tx :=
      h.exec hno.1
    have hrest := ih hexec hno.2
    rw [CanTp.runOps, consecutives_append]
    omega

/-- The transmitter takes note of a clearance to send. -/
theorem rxIndication_of_clearance {s : State τ} (hfc : FlowControl fcStatusCts frame)
    (hwait : s.tx.state = .waitFc) (accept : Bool) (now : τ) :
    (rxIndication accept now frame s).1.tx = { s.tx with
      blockSize := frame.byte 1
      blockCounter := 0
      stminMs := decodeStmin (frame.byte 2)
      lastActivityTick := now
      lastCfTick := now
      state := .sendCf } := by
  have hvalid : ¬ (frame.id ≠ udsRequestId ∨ frame.dlc = 0 ∨ 8 < frame.dlc) := by
    have hdlc : ∀ d : Byte, 3 ≤ d → d ≤ 8 → ¬ (d = 0 ∨ 8 < d) := by decide +kernel
    intro hor
    rcases hor with hne | hor
    · exact hne hfc.id
    · exact hdlc frame.dlc hfc.dlc.1 hfc.dlc.2 hor
  have hhandled : ¬ (frame.dlc < 3 ∨ s.tx.state ≠ .waitFc) := by
    intro hor
    rcases hor with hlt | hne
    · exact absurd hfc.dlc.1 (by simpa using hlt)
    · exact hne hwait
  have hpci : frame.byte 0 &&& pciTypeMask = pciFc := hfc.pci
  have htx : handleFlowControl now frame s.tx = { s.tx with
      blockSize := frame.byte 1
      blockCounter := 0
      stminMs := decodeStmin (frame.byte 2)
      lastActivityTick := now
      lastCfTick := now
      state := .sendCf } := by
    unfold handleFlowControl
    rw [if_neg hhandled]
    exact if_pos hfc.status
  rw [← htx]
  unfold rxIndication
  simp only [if_neg hvalid, hpci]
  rfl

/-- After a flow control at most a block of consecutive frames is queued. -/
theorem consecutives_le_of_grants {s : State τ} {op : Op τ} (h : Grants b op s) (hb : b ≠ 0)
    {ops : List (Op τ)} (hno : NoGrant value ops (op.exec value s).1) :
    consecutives (runOps value ops (op.exec value s).1).2 ≤ b.toNat := by
  obtain ⟨accept, now, frame, rfl, hfc, hwait, hbyte⟩ := h
  have hexec : ((Op.rxIndication accept now frame).exec value s).1.tx = _ :=
    rxIndication_of_clearance hfc hwait accept now
  have hlimited : Limited b 0 ((Op.rxIndication accept now frame).exec value s).1.tx := by
    rw [hexec]
    refine ⟨Nat.zero_le _, fun _ => ⟨hbyte, rfl, ?_⟩⟩
    have hne : b.toNat ≠ 0 := fun hz => hb (BitVec.eq_of_toNat_eq hz)
    omega
  have hle := Limited.runOps ops hlimited hno
  omega

/-! ## A response from its first frame on -/

omit [Zero τ] in
/-- A transmission that is accepted begins with the first frame. -/
theorem sends_of_transmit {s : State τ} {pdu : DiagPdu} (hlen : 7 < pdu.length.toNat)
    (haccepted : (transmit accept now pdu s).1 = true) :
    Tx.Sends pdu.payload 1 (transmit accept now pdu s).2.1.tx ∧
      (transmit accept now pdu s).2.2 = [first pdu.payload] := by
  unfold transmit at haccepted ⊢
  split at haccepted
  · exact absurd haccepted Bool.false_ne_true
  rename_i hlength
  push Not at hlength
  rw [if_neg (by push Not; exact hlength)]
  split at haccepted
  · exact absurd haccepted Bool.false_ne_true
  rename_i hidle
  rw [if_neg hidle]
  rw [if_neg (by unfold sfMaxPayload; omega)] at haccepted ⊢
  have hmax := hlength.2
  unfold diagMaxPduLength at hmax
  have haccept : accept = true := haccepted
  subst haccept
  constructor
  · refine ⟨TxState.noConfusion, ?_, by omega, rfl, rfl, ?_, ?_⟩
    · show (DiagPdu.payload ⟨pdu.length, fun i =>
        if i < pdu.length.toNat then pdu.data i else s.tx.pdu.data i⟩) = pdu.payload
      unfold DiagPdu.payload
      apply List.map_congr_left
      intro i hi
      exact if_pos (List.mem_range.1 hi)
    · unfold count
      rw [DiagPdu.length_payload]
      omega
    · rw [DiagPdu.length_payload]
      exact hlength.2
  · show [firstFrame pdu] = _
    rw [firstFrame_eq (by omega) (by omega)]

/-- The frames of an accepted response are its segmentation from the front, all of it unless the
    transmission was aborted, and never more of a block than the tester asked for. -/
theorem transmission_segments (value : τ → Word) (accept : Bool) (now : τ) (pdu : DiagPdu)
    (s : State τ) (hlen : 7 < pdu.length.toNat)
    (haccepted : (transmit accept now pdu s).1 = true) (ops : List (Op τ))
    (hbusy : InProgress value ops (transmit accept now pdu s).2.1) :
    let started := (transmit accept now pdu s).2.1
    let frames := (transmit accept now pdu s).2.2 ++ responseFrames (runOps value ops started).2
    frames <+: segments pdu.payload ∧
    ((runOps value ops started).1.tx.state = .idle → frames = segments pdu.payload ∨
      ∃ before op, ops = before ++ [op] ∧ Aborts value op (runOps value before started).1) ∧
    ∀ before op after b, ops = before ++ op :: after →
      Grants b op (runOps value before started).1 → b ≠ 0 →
      NoGrant value after (op.exec value (runOps value before started).1).1 →
      consecutives (runOps value after (op.exec value (runOps value before started).1).1).2 ≤
        b.toNat := by
  intro started frames
  obtain ⟨hsends, hfirst⟩ := sends_of_transmit hlen haccepted
  have hlen' : 7 < pdu.payload.length := by
    rw [DiagPdu.length_payload]
    exact hlen
  obtain ⟨k, hstanding, htake⟩ := hsends.runOps hlen' ops hbusy
  have hframes : frames = (segments pdu.payload).take k := by
    show (transmit accept now pdu s).2.2 ++ _ = _
    rw [hfirst, ← take_one_segments hlen', htake]
  refine ⟨?_, fun hidle => ?_, fun before op after b _ hgrants hb hno =>
    consecutives_le_of_grants hgrants hb hno⟩
  · rw [hframes]
    exact List.take_prefix _ _
  · cases hstanding with
    | sends h => exact absurd hidle h.busy
    | finished _ hk =>
      left
      rw [hframes, take_segments_of_count_lt hlen' hk]
    | aborted _ hops habort => exact .inr ⟨_, _, hops, habort⟩

/-! ## On a response of ten bytes -/

/-- A flow control of the tester. -/
def testerControl (flowStatus blockSize stmin : Byte) : CanFrame :=
  ⟨udsRequestId, 3, fun j => [0x30 ||| flowStatus, blockSize, stmin].getD j 0⟩

def tenBytes : DiagPdu := ⟨10, fun i => BitVec.ofNat 8 i⟩

theorem transmission_segments_ten :
    let started := (transmit true 0 tenBytes (init : State Word)).2.1
    let ops : List (Op Word) :=
      [.rxIndication true 1 (testerControl fcStatusCts 1 0), .mainFunction true 2]
    (runOps id ops started).1.tx.state = .idle ∧
    (transmit true 0 tenBytes (init : State Word)).2.2 ++ responseFrames (runOps id ops started).2 <+:
      segments tenBytes.payload :=
  ⟨by decide, (transmission_segments id true 0 tenBytes init (by decide) (by decide) _
    (by unfold InProgress; decide)).1⟩

/-- A reserved status ends the transmission: neither a timeout nor an overflow, and the consecutive
    frame is missing. -/
theorem reserved_status_aborts : ¬ ∀ (accept : Bool) (now : Word) (pdu : DiagPdu) (s : State Word)
    (ops : List (Op Word)), 7 < pdu.length.toNat → (transmit accept now pdu s).1 = true →
    InProgress id ops (transmit accept now pdu s).2.1 →
    let started := (transmit accept now pdu s).2.1
    (runOps id ops started).1.tx.state = .idle →
      (transmit accept now pdu s).2.2 ++ responseFrames (runOps id ops started).2 =
        segments pdu.payload ∨
      ∃ before op, ops = before ++ [op] ∧ (TimesOut id op (runOps id before started).1 ∨
        Controls fcStatusOverflow op (runOps id before started).1) := by
  intro h
  have hends := h true 0 tenBytes init [.rxIndication true 1 (testerControl 3 0 0)] (by decide)
    (by decide) (by unfold InProgress; decide) (by decide)
  rcases hends with hall | ⟨before, op, hops, habort⟩
  · exact absurd (congrArg List.length hall) (by decide)
  · obtain ⟨rfl, hop⟩ := @List.append_inj' _ [] _ _ _ hops rfl
    have hop : op = .rxIndication true 1 (testerControl 3 0 0) := by simpa using hop.symm
    subst hop
    rcases habort with ⟨_, _, htimeout, -⟩ | ⟨_, _, frame, hcontrol, hfc, -⟩
    · cases htimeout
    · cases hcontrol
      exact absurd hfc.status (by decide)

end CanTp
