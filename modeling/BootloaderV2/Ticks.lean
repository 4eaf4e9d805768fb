import BootloaderV2.Transmission

/-!
# What a tick is

The transport layer moves ticks about and looks at them only through `value`.  So it may be run on
whatever knows more of a moment than the 32 bits of the counter: forgetting that leaves the code.
-/

open CanIf (CanFrame)

namespace CanTp

section

variable {τ τ' : Type} (f : τ → τ')

def Rx.map (rx : Rx τ) : Rx τ' :=
  ⟨rx.state, rx.pdu, rx.offset, rx.nextSn, f rx.lastActivityTick⟩

def Tx.map (tx : Tx τ) : Tx τ' :=
  ⟨tx.state, tx.pdu, tx.offset, tx.nextSn, tx.blockSize, tx.blockCounter, tx.stminMs,
    f tx.lastActivityTick, f tx.lastCfTick⟩

def State.map (s : State τ) : State τ' := ⟨s.rx.map f, s.tx.map f, s.diagRequestQueue⟩

def Op.map : Op τ → Op τ'
  | .rxIndication accept now frame => .rxIndication accept (f now) frame
  | .readRequest => .readRequest
  | .transmit accept now pdu => .transmit accept (f now) pdu
  | .mainFunction accept now => .mainFunction accept (f now)

end

section

variable {τ τ' : Type} [Zero τ] [Zero τ'] {f : τ → τ'} {value : τ' → Word}

theorem resetRx_map (hf : f 0 = 0) (rx : Rx τ) : resetRx (rx.map f) = (resetRx rx).map f := by
  unfold resetRx Rx.map
  rw [hf]

theorem resetTx_map (hf : f 0 = 0) (tx : Tx τ) : resetTx (tx.map f) = (resetTx tx).map f := by
  unfold resetTx Tx.map
  rw [hf]

theorem State.map_resetRx (hf : f 0 = 0) (rx : Rx τ) (tx : Tx τ) (queue : List DiagPdu) :
    (⟨resetRx (rx.map f), tx.map f, queue⟩ : State τ') = State.map f ⟨resetRx rx, tx, queue⟩ := by
  rw [resetRx_map hf]
  rfl

/-- A reception that starts if its flow control is sent. -/
theorem State.map_reception (hf : f 0 = 0) (accept : Bool) (rx : Rx τ) (tx : Tx τ)
    (queue : List DiagPdu) :
    (⟨if accept then rx.map f else resetRx (rx.map f), tx.map f, queue⟩ : State τ') =
      State.map f ⟨if accept then rx else resetRx rx, tx, queue⟩ := by
  cases accept with
  | false => exact State.map_resetRx hf rx tx queue
  | true => rfl

theorem handleSingleFrame_map (hf : f 0 = 0) (frame : CanFrame) (s : State τ) :
    handleSingleFrame frame (s.map f) = (handleSingleFrame frame s).map f := by
  unfold handleSingleFrame
  dsimp only
  by_cases hlength : frame.byte 0 &&& pciLowNibbleMask = 0 ∨
      sfMaxPayload < (frame.byte 0 &&& pciLowNibbleMask).toNat ∨
      frame.dlc.toNat < (frame.byte 0 &&& pciLowNibbleMask).toNat + 1
  · rw [if_pos hlength, if_pos hlength]
  · rw [if_neg hlength, if_neg hlength]
    by_cases hstate : s.rx.state = .idle
    · have hmap : (s.map f).rx.state = .idle := hstate
      simp only [hstate, hmap, ne_eq, not_true_eq_false, if_false]
      rfl
    · have hmap : (s.map f).rx.state ≠ .idle := hstate
      simp only [hstate, hmap, ne_eq, not_false_eq_true, if_true]
      exact State.map_resetRx hf s.rx s.tx _

theorem handleFirstFrame_map (hf : f 0 = 0) (accept : Bool) (now : τ) (frame : CanFrame)
    (s : State τ) : handleFirstFrame accept (f now) frame (s.map f) =
      ((handleFirstFrame accept now frame s).1.map f, (handleFirstFrame accept now frame s).2) := by
  have hqueue : (s.map f).diagRequestQueue = s.diagRequestQueue := rfl
  have hreset := State.map_resetRx hf s.rx s.tx s.diagRequestQueue
  unfold handleFirstFrame
  dsimp only
  rw [hqueue]
  split
  · exact Prod.ext hreset rfl
  split
  · exact Prod.ext hreset rfl
  split
  · exact Prod.ext hreset rfl
  · exact Prod.ext (State.map_reception hf accept ⟨_, _, _, _, now⟩ s.tx s.diagRequestQueue) rfl

theorem handleConsecutiveFrame_map (hf : f 0 = 0) (now : τ) (frame : CanFrame) (s : State τ) :
    handleConsecutiveFrame (f now) frame (s.map f) =
      (handleConsecutiveFrame now frame s).map f := by
  unfold handleConsecutiveFrame
  by_cases hwait : s.rx.state ≠ .waitCf ∨ frame.dlc ≤ 1
  · rw [if_pos hwait, if_pos (show (s.map f).rx.state ≠ .waitCf ∨ _ from hwait)]
  rw [if_neg hwait, if_neg (show ¬ ((s.map f).rx.state ≠ .waitCf ∨ _) from hwait)]
  by_cases hsn : frame.byte 0 &&& pciLowNibbleMask ≠ s.rx.nextSn
  · rw [if_pos hsn, if_pos (show _ ≠ (s.map f).rx.nextSn from hsn)]
    unfold State.map
    dsimp only
    rw [resetRx_map hf]
  rw [if_neg hsn, if_neg (show ¬ _ ≠ (s.map f).rx.nextSn from hsn)]
  dsimp only [State.map, Rx.map]
  generalize (if frame.dlc.setWidth 32 - 1 < s.rx.pdu.length.setWidth 32 - s.rx.offset.setWidth 32
    then frame.dlc.setWidth 32 - 1
    else s.rx.pdu.length.setWidth 32 - s.rx.offset.setWidth 32 : Word) = bytesToCopy
  split
  · simp only [resetRx, hf]
  · rfl

theorem handleFlowControl_map (hf : f 0 = 0) (now : τ) (frame : CanFrame) (tx : Tx τ) :
    handleFlowControl (f now) frame (tx.map f) = (handleFlowControl now frame tx).map f := by
  unfold handleFlowControl
  by_cases hwait : frame.dlc < 3 ∨ tx.state ≠ .waitFc
  · rw [if_pos hwait, if_pos (show _ ∨ (tx.map f).state ≠ .waitFc from hwait)]
  rw [if_neg hwait, if_neg (show ¬ (_ ∨ (tx.map f).state ≠ .waitFc) from hwait)]
  dsimp only
  rw [resetTx_map hf]
  split
  · rfl
  split
  · rfl
  split
  · rfl
  · rfl

theorem rxIndication_map (hf : f 0 = 0) (accept : Bool) (now : τ) (frame : CanFrame)
    (s : State τ) : rxIndication accept (f now) frame (s.map f) =
      ((rxIndication accept now frame s).1.map f, (rxIndication accept now frame s).2) := by
  unfold rxIndication
  dsimp only
  split
  · rfl
  split
  · rw [handleSingleFrame_map hf]
  split
  · exact handleFirstFrame_map hf accept now frame s
  split
  · rw [handleConsecutiveFrame_map hf]
  split
  · show ((⟨s.rx.map f, handleFlowControl (f now) frame (s.tx.map f), _⟩ : State τ'), _) = _
    rw [handleFlowControl_map hf]
    rfl
  · rfl

omit [Zero τ] [Zero τ'] in
theorem transmit_map (accept : Bool) (now : τ) (pdu : DiagPdu) (s : State τ) :
    (transmit accept (f now) pdu (s.map f)).2 =
      ((transmit accept now pdu s).2.1.map f, (transmit accept now pdu s).2.2) := by
  unfold transmit
  split
  · rfl
  by_cases hidle : s.tx.state ≠ .idle
  · rw [if_pos hidle, if_pos (show (s.map f).tx.state ≠ .idle from hidle)]
  rw [if_neg hidle, if_neg (show ¬ (s.map f).tx.state ≠ .idle from hidle)]
  split
  · rfl
  · unfold startMultiFrameTransmit
    cases accept with
    | false => rfl
    | true => rfl

theorem sendNextConsecutiveFrame_map (hf : f 0 = 0) (accept : Bool) (now : τ) (tx : Tx τ) :
    sendNextConsecutiveFrame accept (f now) (tx.map f) =
      ((sendNextConsecutiveFrame accept now tx).1.map f,
        (sendNextConsecutiveFrame accept now tx).2) := by
  unfold sendNextConsecutiveFrame
  cases accept with
  | false => rfl
  | true =>
    refine Prod.ext ?_ rfl
    show afterConsecutiveFrame (f now) (tx.map f) = (afterConsecutiveFrame now tx).map f
    unfold afterConsecutiveFrame
    dsimp only
    by_cases hdone : tx.pdu.length ≤ tx.offset + (bytesToCopy tx).setWidth 16
    · rw [if_pos hdone]
      refine (if_pos hdone).trans ?_
      simp only [resetTx, Tx.map, hf]
    · rw [if_neg hdone]
      refine (if_neg hdone).trans ?_
      by_cases hblock : tx.blockSize ≠ 0 ∧ tx.blockSize ≤ tx.blockCounter + 1
      · rw [if_pos hblock]
        exact if_pos hblock
      · rw [if_neg hblock]
        exact if_neg hblock

theorem advanceTx_map (hf : f 0 = 0) (accept : Bool) (now : τ) (tx : Tx τ) :
    advanceTx accept value (f now) (tx.map f) =
      ((advanceTx accept (value ∘ f) now tx).1.map f, (advanceTx accept (value ∘ f) now tx).2) := by
  unfold advanceTx
  dsimp only
  by_cases hexpired : NBsExpired (value ∘ f) now tx
  · have hdue : ¬ CfDue (value ∘ f) now (resetTx tx) := fun hdue => TxState.noConfusion hdue.1
    have hdue' : ¬ CfDue value (f now) (resetTx (tx.map f)) :=
      fun hdue => TxState.noConfusion hdue.1
    rw [if_pos hexpired, if_pos (show NBsExpired value (f now) (tx.map f) from hexpired),
      if_neg hdue, if_neg hdue', resetTx_map hf]
  · rw [if_neg hexpired, if_neg (show ¬ NBsExpired value (f now) (tx.map f) from hexpired)]
    by_cases hdue : CfDue (value ∘ f) now tx
    · rw [if_pos hdue, if_pos (show CfDue value (f now) (tx.map f) from hdue)]
      exact sendNextConsecutiveFrame_map hf accept now tx
    · rw [if_neg hdue, if_neg (show ¬ CfDue value (f now) (tx.map f) from hdue)]

/-- Nothing but the ticks themselves depends on what a tick is. -/
theorem exec_map (hf : f 0 = 0) (op : Op τ) (s : State τ) :
    (op.map f).exec value (s.map f) =
      ((op.exec (value ∘ f) s).1.map f, (op.exec (value ∘ f) s).2) := by
  cases op with
  | rxIndication accept now frame => exact rxIndication_map hf accept now frame s
  | readRequest =>
    refine Prod.ext ?_ rfl
    show (readRequest (s.map f)).2 = (readRequest s).2.map f
    unfold readRequest
    cases hqueue : s.diagRequestQueue with
    | nil =>
      have hmap : (s.map f).diagRequestQueue = [] := hqueue
      simp only [hmap]
    | cons pdu rest =>
      have hmap : (s.map f).diagRequestQueue = pdu :: rest := hqueue
      simp only [hmap]
      rfl
  | transmit accept now pdu => exact transmit_map accept now pdu s
  | mainFunction accept now =>
    have htx : advanceTx accept value (f now) (s.tx.map f) = _ := advanceTx_map hf accept now s.tx
    show (mainFunction accept value (f now) (s.map f)) = _
    have hrx : (if NCrExpired value (f now) (s.map f).rx then resetRx (s.map f).rx
        else (s.map f).rx) =
        (if NCrExpired (value ∘ f) now s.rx then resetRx s.rx else s.rx).map f := by
      by_cases hexpired : NCrExpired (value ∘ f) now s.rx
      · rw [if_pos hexpired, if_pos (show NCrExpired value (f now) (s.map f).rx from hexpired)]
        exact resetRx_map hf s.rx
      · rw [if_neg hexpired, if_neg (show ¬ NCrExpired value (f now) (s.map f).rx from hexpired)]
        rfl
    unfold mainFunction
    dsimp only
    rw [hrx, show (s.map f).tx = s.tx.map f from rfl, htx]
    rfl

end

/-! ## Where a tick comes from -/

section

variable {τ : Type} [Zero τ] {P : τ → Prop} {value : τ → Word} {now : τ}

/-- Each tick that is kept has the property. -/
structure State.Ticks (P : τ → Prop) (s : State τ) : Prop where
  rxActivity : P s.rx.lastActivityTick
  txActivity : P s.tx.lastActivityTick
  txCf : P s.tx.lastCfTick

omit [Zero τ] in
theorem State.Ticks.mono {Q : τ → Prop} {s : State τ} (h : s.Ticks P) (hPQ : ∀ x, P x → Q x) :
    s.Ticks Q :=
  ⟨hPQ _ h.rxActivity, hPQ _ h.txActivity, hPQ _ h.txCf⟩

theorem ticks_init (h0 : P 0) : (init : State τ).Ticks P := ⟨h0, h0, h0⟩

theorem State.Ticks.handleSingleFrame {s : State τ} (h : s.Ticks P) (h0 : P 0) (frame : CanFrame) :
    (handleSingleFrame frame s).Ticks P := by
  unfold CanTp.handleSingleFrame
  dsimp only
  split
  · exact h
  · refine ⟨?_, h.txActivity, h.txCf⟩
    dsimp only
    split
    · exact h0
    · exact h.rxActivity

theorem State.Ticks.handleFirstFrame {s : State τ} (h : s.Ticks P) (h0 : P 0) (hnow : P now)
    (accept : Bool) (frame : CanFrame) : (handleFirstFrame accept now frame s).1.Ticks P := by
  unfold CanTp.handleFirstFrame
  dsimp only
  split
  · exact ⟨h0, h.txActivity, h.txCf⟩
  split
  · exact ⟨h0, h.txActivity, h.txCf⟩
  split
  · exact ⟨h0, h.txActivity, h.txCf⟩
  · refine ⟨?_, h.txActivity, h.txCf⟩
    cases accept with
    | false => exact h0
    | true => exact hnow

theorem State.Ticks.handleConsecutiveFrame {s : State τ} (h : s.Ticks P) (h0 : P 0) (hnow : P now)
    (frame : CanFrame) : (handleConsecutiveFrame now frame s).Ticks P := by
  unfold CanTp.handleConsecutiveFrame
  split
  · exact h
  split
  · exact ⟨h0, h.txActivity, h.txCf⟩
  dsimp only
  generalize (if frame.dlc.setWidth 32 - 1 < s.rx.pdu.length.setWidth 32 - s.rx.offset.setWidth 32
    then frame.dlc.setWidth 32 - 1
    else s.rx.pdu.length.setWidth 32 - s.rx.offset.setWidth 32 : Word) = bytesToCopy
  split
  · exact ⟨h0, h.txActivity, h.txCf⟩
  · exact ⟨hnow, h.txActivity, h.txCf⟩

theorem State.Ticks.rxIndication {s : State τ} (h : s.Ticks P) (h0 : P 0) (hnow : P now)
    (accept : Bool) (frame : CanFrame) : (rxIndication accept now frame s).1.Ticks P := by
  unfold CanTp.rxIndication
  dsimp only
  split
  · exact h
  split
  · exact h.handleSingleFrame h0 frame
  split
  · exact h.handleFirstFrame h0 hnow accept frame
  split
  · exact h.handleConsecutiveFrame h0 hnow frame
  split
  · rcases handleFlowControl_cases now frame s.tx with
      heq | ⟨-, -, ⟨-, heq⟩ | ⟨-, heq⟩ | ⟨-, -, heq⟩⟩
    · rw [heq]
      exact h
    · rw [heq]
      exact ⟨h.rxActivity, hnow, hnow⟩
    · rw [heq]
      exact ⟨h.rxActivity, hnow, h.txCf⟩
    · rw [heq]
      exact ⟨h.rxActivity, h0, h0⟩
  · exact h

omit [Zero τ] in
theorem State.Ticks.transmit {s : State τ} (h : s.Ticks P) (hnow : P now) (accept : Bool)
    (pdu : DiagPdu) : (transmit accept now pdu s).2.1.Ticks P := by
  unfold CanTp.transmit
  split
  · exact h
  split
  · exact h
  split
  · exact h
  · unfold startMultiFrameTransmit
    cases accept with
    | false => exact ⟨h.rxActivity, h.txActivity, h.txCf⟩
    | true => exact ⟨h.rxActivity, hnow, h.txCf⟩

omit [Zero τ] in
/-- A transmission that begins to wait for a flow control waits since the tick of the call. -/
theorem transmit_waits {accept : Bool} {pdu : DiagPdu} {s : State τ} (h : s.tx.state ≠ .waitFc)
    (hwait : (transmit accept now pdu s).2.1.tx.state = .waitFc) :
    (transmit accept now pdu s).2.1.tx.lastActivityTick = now := by
  unfold CanTp.transmit at hwait ⊢
  split at hwait
  · exact absurd hwait h
  rename_i hlength
  rw [if_neg hlength]
  split at hwait
  · exact absurd hwait h
  rename_i hidle
  rw [if_neg hidle]
  split at hwait
  · exact absurd hwait h
  rename_i hsingle
  rw [if_neg hsingle]
  unfold startMultiFrameTransmit at hwait ⊢
  cases accept with
  | false => exact absurd hwait h
  | true => rfl

/-- And so does one at the end of a block. -/
theorem advanceTx_waits {accept : Bool} {tx : Tx τ} (h : tx.state ≠ .waitFc)
    (hwait : (advanceTx accept value now tx).1.state = .waitFc) :
    (advanceTx accept value now tx).1.lastActivityTick = now := by
  have hexpired : ¬ NBsExpired value now tx := fun hout => h hout.1
  unfold advanceTx at hwait ⊢
  simp only [if_neg hexpired] at hwait ⊢
  split at hwait
  · rename_i hdue
    rw [if_pos hdue]
    cases accept with
    | false => exact absurd hwait h
    | true =>
      change (afterConsecutiveFrame now tx).state = .waitFc at hwait
      show (afterConsecutiveFrame now tx).lastActivityTick = now
      unfold afterConsecutiveFrame at hwait ⊢
      dsimp only at hwait ⊢
      split at hwait
      · cases hwait
      · rename_i hmore
        rw [if_neg hmore]
        split <;> rfl
  · exact absurd hwait h

/-- One that goes on waiting is not touched. -/
theorem advanceTx_still {accept : Bool} {tx : Tx τ} (h : tx.state = .waitFc)
    (hwait : (advanceTx accept value now tx).1.state = .waitFc) :
    (advanceTx accept value now tx).1 = tx := by
  have hdue : ¬ CfDue value now tx := fun hdue => by
    have hsend := hdue.1
    rw [h] at hsend
    cases hsend
  unfold advanceTx at hwait ⊢
  by_cases hexpired : NBsExpired value now tx
  · have hreset : ¬ CfDue value now (resetTx tx) := fun hdue => TxState.noConfusion hdue.1
    simp only [if_pos hexpired, if_neg hreset] at hwait
    cases hwait
  · simp only [if_neg hexpired, if_neg hdue]

theorem State.Ticks.mainFunction {s : State τ} (h : s.Ticks P) (h0 : P 0) (hnow : P now)
    (accept : Bool) : (mainFunction accept value now s).1.Ticks P := by
  have hafter : ∀ tx : Tx τ, P (afterConsecutiveFrame now tx).lastActivityTick ∧
      P (afterConsecutiveFrame now tx).lastCfTick := by
    intro tx
    unfold afterConsecutiveFrame
    dsimp only
    split
    · exact ⟨h0, h0⟩
    split
    · exact ⟨hnow, hnow⟩
    · exact ⟨hnow, hnow⟩
  have htx : P (advanceTx accept value now s.tx).1.lastActivityTick ∧
      P (advanceTx accept value now s.tx).1.lastCfTick := by
    unfold advanceTx
    by_cases hexpired : NBsExpired value now s.tx
    · have hdue : ¬ CfDue value now (resetTx s.tx) := fun hdue => TxState.noConfusion hdue.1
      simp only [if_pos hexpired, if_neg hdue]
      exact ⟨h0, h0⟩
    simp only [if_neg hexpired]
    split
    · cases accept with
      | false => exact ⟨h.txActivity, h.txCf⟩
      | true => exact hafter s.tx
    · exact ⟨h.txActivity, h.txCf⟩
  refine ⟨?_, htx.1, htx.2⟩
  show P (if NCrExpired value now s.rx then resetRx s.rx else s.rx).lastActivityTick
  split
  · exact h0
  · exact h.rxActivity

omit [Zero τ] in
theorem readRequest_rx_tx (s : State τ) :
    (readRequest s).2.rx = s.rx ∧ (readRequest s).2.tx = s.tx := by
  unfold readRequest
  split
  · exact ⟨rfl, rfl⟩
  · exact ⟨rfl, rfl⟩

omit [Zero τ] in
theorem State.Ticks.readRequest {s : State τ} (h : s.Ticks P) : (readRequest s).2.Ticks P := by
  obtain ⟨hrx, htx⟩ := readRequest_rx_tx s
  refine ⟨?_, ?_, ?_⟩
  · rw [hrx]
    exact h.rxActivity
  · rw [htx]
    exact h.txActivity
  · rw [htx]
    exact h.txCf

end

end CanTp
