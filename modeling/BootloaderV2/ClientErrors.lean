import BootloaderV2.IsoTpClient

/-!
# How the ISO-TP client fails

Whatever arrives, the client returns what a response has announced or raises one of its own errors;
only a clear-to-send flow control of one or two bytes makes it read beyond the frame.
-/

namespace Gateway

open RaiseM (raise lift exhausted Ensures Settles Ends)

/-- The first response from the receive `start` on is `frame`; `next` is the receive after it. -/
inductive Arrives (received : Nat → Option CanFrame) (c : IsoTpClient) :
    Nat → CanFrame → Nat → Prop where
  | here {start : Nat} {frame : CanFrame} (h : received start = some frame)
    (hid : frame.canId = c.responseId) : Arrives received c start frame (start + 1)
  | skip {start next : Nat} {frame : CanFrame}
    (h : ∀ other, received start = some other → other.canId ≠ c.responseId)
    (hrest : Arrives received c (start + 1) frame next) : Arrives received c start frame next

/-- Between two readings of the clock at least the time `timeout` passes. -/
def World.Overruns (w : World) (timeout : Rat) : Prop :=
  ∃ m n, m ≤ n ∧ w.clock m + timeout ≤ w.clock n

/-- The identifiers and the data of the frames that have been sent. -/
def Io.sent (s : Io) : List (Nat × List Byte) :=
  s.log.filterMap fun action =>
    match action with
    | .send frame => some (frame.canId, frame.data)
    | _ => none

theorem Io.sent_append (s : Io) (action : Action) : Io.sent { s with log := s.log ++ [action] } =
    s.sent ++ Io.sent { s with log := [action] } :=
  List.filterMap_append

namespace IsoTpClient

variable {w : World} {c : IsoTpClient} {s : Io} {deadline timeout : Rat} {fuel : Nat}

/-! ## Waiting for a response -/

/-- The state after the clock has been read and the bus been asked. -/
def asked (w : World) (deadline : Rat) (s : Io) : Io :=
  ⟨s.clockReads + 1, s.receives + 1, s.log ++ [Action.receive (deadline - w.clock s.clockReads)]⟩

/-- The bus has been asked at most once, and to wait for what was left until the deadline. -/
def WaitsFor (remaining : Rat) (s s' : Io) : Prop :=
  ∀ t, Action.receive t ∈ s'.log → Action.receive t ∈ s.log ∨ (0 < t ∧ t = remaining)

/-- One turn of the loop of `_receive_response`, with any fuel. -/
inductive Turn (w : World) (c : IsoTpClient) (deadline : Rat) (s : Io) : Prop where
  | timedOut (s' : Io) (h : ∀ fuel, receiveLoop w c deadline (fuel + 1) s =
      some (.error c.timedOut, s')) (n : Nat) (hn : s.clockReads ≤ n) (hdeadline : deadline ≤ w.clock n)
    (hwaits : WaitsFor (deadline - w.clock s.clockReads) s s')
  | arrived (frame : CanFrame) (s' : Io) (h : ∀ fuel, receiveLoop w c deadline (fuel + 1) s =
      some (.ok frame, s')) (hreceived : w.received s.receives = some frame)
    (hid : frame.canId = c.responseId) (hnext : s'.receives = s.receives + 1)
    (hwaits : WaitsFor (deadline - w.clock s.clockReads) s s')
  | goesOn (s' : Io) (h : ∀ fuel, receiveLoop w c deadline (fuel + 1) s =
      receiveLoop w c deadline fuel s')
    (hother : ∀ other, w.received s.receives = some other → other.canId ≠ c.responseId)
    (hnext : s'.receives = s.receives + 1) (hbefore : w.clock s.clockReads < deadline)
    (hclock : s.clockReads < s'.clockReads)
    (hwaits : WaitsFor (deadline - w.clock s.clockReads) s s')

/-- A turn of the loop before the deadline. -/
theorem receiveLoop_waited {w : World} {c : IsoTpClient} {deadline : Rat} {s : Io} {fuel : Nat}
    (h : ¬ deadline - w.clock s.clockReads ≤ 0) : receiveLoop w c deadline (fuel + 1) s =
      (match w.received s.receives with
      | none => do
        let now ← monotonic w
        if deadline ≤ now then raise c.timedOut else receiveLoop w c deadline fuel
      | some frame =>
        if frame.canId = c.responseId then return frame else receiveLoop w c deadline fuel)
        (asked w deadline s) := by
  show (if deadline - w.clock s.clockReads ≤ 0 then raise c.timedOut else _ : Py CanFrame) _ = _
  rw [if_neg h]
  rfl

theorem turn (w : World) (c : IsoTpClient) (deadline : Rat) (s : Io) : Turn w c deadline s := by
  by_cases hremaining : deadline - w.clock s.clockReads ≤ 0
  · have hout : ∀ fuel, receiveLoop w c deadline (fuel + 1) s =
        some (.error c.timedOut, { s with clockReads := s.clockReads + 1 }) := by
      intro fuel
      show (if deadline - w.clock s.clockReads ≤ 0 then raise c.timedOut else _ : Py CanFrame) _ = _
      rw [if_pos hremaining]
      rfl
    exact .timedOut _ hout s.clockReads le_rfl (by linarith) fun _ ht => .inl ht
  have hbefore : w.clock s.clockReads < deadline := by linarith
  have hwaits : ∀ s' : Io, s'.log = (asked w deadline s).log →
      WaitsFor (deadline - w.clock s.clockReads) s s' := by
    intro s' hlog t ht
    rw [hlog] at ht
    rcases List.mem_append.1 ht with hold | hnew
    · exact .inl hold
    · cases List.mem_singleton.1 hnew
      exact .inr ⟨by linarith, rfl⟩
  have hwaited := fun fuel => @receiveLoop_waited w c deadline s fuel hremaining
  cases hreceived : w.received s.receives with
  | none =>
    have hnone : ∀ fuel, receiveLoop w c deadline (fuel + 1) s =
        (if deadline ≤ w.clock (s.clockReads + 1) then raise c.timedOut else
          receiveLoop w c deadline fuel : Py CanFrame)
          { asked w deadline s with clockReads := s.clockReads + 2 } := by
      intro fuel
      rw [hwaited, hreceived]
      rfl
    by_cases hdeadline : deadline ≤ w.clock (s.clockReads + 1)
    · simp only [if_pos hdeadline] at hnone
      exact .timedOut _ hnone (s.clockReads + 1) (Nat.le_succ _) hdeadline (hwaits _ rfl)
    · simp only [if_neg hdeadline] at hnone
      refine .goesOn _ hnone (fun other hother => ?_) rfl hbefore ?_ (hwaits _ rfl)
      · rw [hreceived] at hother
        cases hother
      · exact Nat.lt_add_of_pos_right (by decide)
  | some frame =>
    rw [hreceived] at hwaited
    by_cases hid : frame.canId = c.responseId
    · simp only [if_pos hid] at hwaited
      exact .arrived frame _ hwaited hreceived hid rfl (hwaits _ rfl)
    · simp only [if_neg hid] at hwaited
      refine .goesOn _ hwaited (fun other hother => ?_) rfl hbefore (Nat.lt_succ_self _)
        (hwaits _ rfl)
      rw [hreceived] at hother
      cases hother
      exact hid

/-- In the end the loop has taken what arrives, or its time has run out before. -/
theorem settles_receiveLoop {start next : Nat} {frame : CanFrame}
    (h : Arrives w.received c start frame next) (hs : s.receives = start) :
    ∃ res s', Settles (receiveLoop w c deadline) s (res, s') ∧
      ((res = .ok frame ∧ s'.receives = next) ∨
        (res = .error c.timedOut ∧ ∃ n, s.clockReads ≤ n ∧ deadline ≤ w.clock n)) := by
  induction h generalizing s with
  | here hreceived hid =>
    cases turn w c deadline s with
    | timedOut s' h n hn hdeadline =>
      exact ⟨_, s', .last h, .inr ⟨rfl, n, hn, hdeadline⟩⟩
    | arrived other s' h hother hid' hnext =>
      rw [hs, hreceived] at hother
      cases hother
      exact ⟨_, s', .last h, .inl ⟨rfl, hnext.trans (by rw [hs])⟩⟩
    | goesOn s' h hother =>
      rw [hs] at hother
      exact absurd hid (hother _ hreceived)
  | skip hskip harrives ih =>
    cases turn w c deadline s with
    | timedOut s' h n hn hdeadline =>
      exact ⟨_, s', .last h, .inr ⟨rfl, n, hn, hdeadline⟩⟩
    | arrived other s' h hother hid' hnext =>
      rw [hs] at hother
      exact absurd hid' (hskip _ hother)
    | goesOn s' h hother hnext hbefore hclock =>
      obtain ⟨res, s'', hsettles, hcases⟩ := ih (s := s') (by rw [hnext, hs])
      refine ⟨res, s'', .succ h hsettles, hcases.imp_right fun hout => ?_⟩
      obtain ⟨hres, n, hn, hdeadline⟩ := hout
      exact ⟨hres, n, by omega, hdeadline⟩

theorem settles_receiveResponseFrame {start next : Nat} {frame : CanFrame}
    (h : Arrives w.received c start frame next) (hs : s.receives = start) :
    ∃ res s', Settles (receiveResponseFrame w c timeout) s (res, s') ∧
      ((res = .ok frame ∧ s'.receives = next) ∨
        (res = .error c.timedOut ∧ w.Overruns timeout)) := by
  obtain ⟨res, s', hsettles, hcases⟩ := @settles_receiveLoop w c
    { s with clockReads := s.clockReads + 1 } (w.clock s.clockReads + timeout) start next frame h hs
  refine ⟨res, s', hsettles, hcases.imp_right fun hout => ?_⟩
  obtain ⟨hres, n, hn, hdeadline⟩ := hout
  exact ⟨hres, s.clockReads, n, Nat.le_of_succ_le hn, hdeadline⟩

/-- A flow control that lets the client continue to send. -/
def IsCts (data : List Byte) : Prop := ∃ pci rest, data = pci :: rest ∧
  pci >>> 4 = pciTypeFlowControl ∧ pci &&& 0x0F = flowStatusContinueToSend

/-- It ends before the separation time. -/
def ShortCts (data : List Byte) : Prop := IsCts data ∧ data.length < 3

/-- It has a block size and a separation time that is not reserved. -/
def Clears (data : List Byte) (blockSize : Byte) : Prop := IsCts data ∧
  ∃ stmin, flowParameters data = .ok (blockSize, stmin)

theorem isIsoTp_decodeStmin {value : Byte} {e : PyError} (h : decodeStmin value = .error e) :
    e.IsIsoTp := by
  unfold decodeStmin at h
  split at h
  · cases h
  · split at h
    · cases h
    · cases h
      trivial

theorem flowParameters_short {data : List Byte} (h : data.length < 3) :
    flowParameters data = .error .indexError := by
  match data with
  | [] | [_] | [_, _] => rfl
  | _ :: _ :: _ :: _ =>
    simp only [List.length_cons] at h
    omega

theorem flowParameters_cons {pci blockSize value : Byte} {rest : List Byte} :
    flowParameters (pci :: blockSize :: value :: rest) =
      (decodeStmin value).map fun stmin => (blockSize, stmin) := by
  show (do
    let stmin ← decodeStmin value
    return (blockSize, stmin) : Except PyError (Byte × Rat)) = _
  cases decodeStmin value <;> rfl

theorem flowParameters_error {data : List Byte} {e : PyError} (hlen : 3 ≤ data.length)
    (h : flowParameters data = .error e) : e.IsIsoTp := by
  match data with
  | [] | [_] | [_, _] => simp at hlen
  | _ :: _ :: value :: _ =>
    rw [flowParameters_cons] at h
    cases hstmin : decodeStmin value with
    | error e' =>
      rw [hstmin] at h
      cases h
      exact isIsoTp_decodeStmin hstmin
    | ok stmin =>
      rw [hstmin] at h
      cases h

/-- How `_send_multi_frame` reads a flow control, after the first frame and after a block. -/
structure ReadsFlowControl (read : List Byte → Except PyError (Byte × Rat)) : Prop where
  accepted : ∀ data, IsCts data → read data = flowParameters data
  refused : ∀ data, ¬ IsCts data → ∃ message, read data = .error (.isoTpError message)

theorem readsFlowControl_first : ReadsFlowControl firstFlowControl where
  accepted data h := by
    obtain ⟨pci, rest, rfl, htype, hstatus⟩ := h
    show (if pci >>> 4 ≠ pciTypeFlowControl then _ else if pci &&& 0x0F ≠ flowStatusContinueToSend
      then _ else _ : Except PyError (Byte × Rat)) = _
    rw [if_neg (not_not.2 htype), if_neg (not_not.2 hstatus)]
  refused data h := by
    cases data with
    | nil => exact ⟨_, rfl⟩
    | cons pci rest =>
      unfold firstFlowControl
      dsimp only
      by_cases htype : pci >>> 4 = pciTypeFlowControl
      · have hstatus : pci &&& 0x0F ≠ flowStatusContinueToSend :=
          fun hs => h ⟨pci, rest, rfl, htype, hs⟩
        rw [if_neg (not_not.2 htype), if_pos hstatus]
        exact ⟨_, rfl⟩
      · rw [if_pos htype]
        exact ⟨_, rfl⟩

namespace ReadsFlowControl

variable {read : List Byte → Except PyError (Byte × Rat)} {data : List Byte}

theorem clears (h : ReadsFlowControl read) {p : Byte × Rat} (hp : read data = .ok p) :
    Clears data p.1 := by
  by_cases hcts : IsCts data
  · rw [h.accepted data hcts] at hp
    exact ⟨hcts, p.2, hp⟩
  · obtain ⟨message, hmessage⟩ := h.refused data hcts
    rw [hmessage] at hp
    cases hp

/-- It fails with the client's own error, or for want of a byte. -/
theorem error (h : ReadsFlowControl read) {e : PyError} (he : read data = .error e) :
    e.IsIsoTp ∨ (e = .indexError ∧ ShortCts data) := by
  by_cases hcts : IsCts data
  · rw [h.accepted data hcts] at he
    by_cases hlen : data.length < 3
    · rw [flowParameters_short hlen] at he
      cases he
      exact .inr ⟨rfl, hcts, hlen⟩
    · exact .inl (flowParameters_error (by omega) he)
  · obtain ⟨message, hmessage⟩ := h.refused data hcts
    rw [hmessage] at he
    cases he
    exact .inl trivial

theorem short (h : ReadsFlowControl read) (hshort : ShortCts data) :
    read data = .error .indexError := by
  rw [h.accepted data hshort.1]
  exact flowParameters_short hshort.2

end ReadsFlowControl

/-! ## Sending -/

/-- The client's own frames are valid ones. -/
theorem make_request {data : List Byte} (h : data.length ≤ 8) :
    CanFrame.make c.requestId data = .ok ⟨c.requestId, data, c.request_standard, h⟩ := by
  unfold CanFrame.make
  rw [dif_neg (Nat.not_lt.2 c.request_standard), dif_neg (Nat.not_lt.2 h)]

/-- Sending one asks neither the clock nor the bus. -/
theorem send_request {data : List Byte} (h : data.length ≤ 8) : ∃ s', s'.receives = s.receives ∧
    s'.sent = s.sent ++ [(c.requestId, data)] ∧
    (do send (← lift (CanFrame.make c.requestId data)) : Py Unit) s = some (.ok (), s') := by
  rw [make_request h]
  let frame : CanFrame := ⟨c.requestId, data, c.request_standard, h⟩
  exact ⟨{ s with log := s.log ++ [.send frame] }, rfl, s.sent_append _, rfl⟩

theorem length_ljust {data : List Byte} (h : data.length ≤ 8) : (ljust data).length = 8 := by
  unfold ljust
  rw [List.length_append, List.length_replicate]
  omega

variable {payload : List Byte} {offset blockCount : Nat} {sequence blockSize : Byte} {stmin : Rat}

/-- The wait for a flow control and the frames that it lets through. -/
def nextBlock (w : World) (c : IsoTpClient) (read : List Byte → Except PyError (Byte × Rat))
    (payload : List Byte) (offset : Nat) (sequence : Byte) (fuel : Nat) : Py Unit := do
  let flowControl ← receiveResponseFrame w c c.responseTimeout fuel
  let parameters ← lift (read flowControl.data)
  sendLoop w c payload offset sequence 0 parameters.1 parameters.2 fuel

/-- One consecutive frame, and the flow control after the last of a block. -/
theorem sendLoop_succ (hlt : offset < payload.length) : ∃ s', s'.receives = s.receives ∧
    s'.sent = s.sent ++
      [(c.requestId, ljust ((0x20 ||| sequence) :: (payload.drop offset).take 7))] ∧
    ∀ fuel, sendLoop w c payload offset sequence blockCount blockSize stmin (fuel + 1) s =
      (if blockSize ≠ 0 ∧ blockSize.toNat ≤ blockCount + 1 ∧
          offset + min 7 (payload.length - offset) < payload.length then
        nextBlock w c repeatedFlowControl payload (offset + min 7 (payload.length - offset))
          ((sequence + 1) &&& 0x0F) fuel
      else sendLoop w c payload (offset + min 7 (payload.length - offset)) ((sequence + 1) &&& 0x0F)
        (blockCount + 1) blockSize stmin fuel : Py Unit) s' := by
  have hchunk : ((payload.drop offset).take 7).length = min 7 (payload.length - offset) := by
    rw [List.length_take, List.length_drop]
  have hframe : (ljust ((0x20 ||| sequence) :: (payload.drop offset).take 7)).length ≤ 8 := by
    rw [length_ljust]
    rw [List.length_cons, hchunk]
    omega
  let frame : CanFrame := ⟨c.requestId, _, c.request_standard, hframe⟩
  by_cases hstmin : stmin ≠ 0
  · let slept : Io := { s with log := s.log ++ [.sleep stmin] }
    have hslept : slept.sent = s.sent := (s.sent_append _).trans (List.append_nil _)
    refine ⟨{ slept with log := slept.log ++ [.send frame] }, rfl, ?_, fun fuel => ?_⟩
    · rw [← hslept]
      exact slept.sent_append _
    · show (if offset < payload.length then _ else _ : Py Unit) s = _
      rw [if_pos hlt, if_pos hstmin, make_request hframe, hchunk]
      rfl
  · refine ⟨{ s with log := s.log ++ [.send frame] }, rfl, s.sent_append _, fun fuel => ?_⟩
    show (if offset < payload.length then _ else _ : Py Unit) s = _
    rw [if_pos hlt, if_neg hstmin, make_request hframe, hchunk]
    rfl

theorem sendLoop_done (hle : payload.length ≤ offset) :
    sendLoop w c payload offset sequence blockCount blockSize stmin (fuel + 1) s =
      some (.ok (), s) := by
  show (if offset < payload.length then _ else _ : Py Unit) s = _
  rw [if_neg (Nat.not_lt.2 hle)]
  rfl

/-- With `rest` bytes to send, a short clear-to-send is the flow control that is waited for, or that
    after a number of whole blocks. -/
inductive MeetsShortCts (received : Nat → Option CanFrame) (c : IsoTpClient) : Nat → Nat → Prop where
  | here {rest start next : Nat} {frame : CanFrame} (h : Arrives received c start frame next)
    (hshort : ShortCts frame.data) : MeetsShortCts received c rest start
  | later {rest start next : Nat} {frame : CanFrame} {blockSize : Byte}
    (h : Arrives received c start frame next) (hclears : Clears frame.data blockSize)
    (hsize : blockSize ≠ 0) (hblock : 7 * blockSize.toNat < rest)
    (hrest : MeetsShortCts received c (rest - 7 * blockSize.toNat) next) :
    MeetsShortCts received c rest start

/-- The same in a block of which some frames have been sent. -/
structure InBlock (received : Nat → Option CanFrame) (c : IsoTpClient) (rest start : Nat)
    (blockSize : Byte) (blockCount : Nat) : Prop where
  size : blockSize ≠ 0
  count : blockCount < blockSize.toNat
  block : 7 * (blockSize.toNat - blockCount) < rest
  meets : MeetsShortCts received c (rest - 7 * (blockSize.toNat - blockCount)) start

theorem MeetsShortCts.inBlock {rest start : Nat} (h : MeetsShortCts w.received c rest start)
    (hrest : 0 < rest) (hsize : blockSize ≠ 0) (hcount : blockSize.toNat = blockCount + 1) :
    InBlock w.received c (rest + 7) start blockSize blockCount := by
  have hone : blockSize.toNat - blockCount = 1 := by omega
  refine ⟨hsize, by omega, ?_, ?_⟩
  · rw [hone]
    omega
  · rw [hone]
    exact h

theorem InBlock.frame {rest start : Nat} (h : InBlock w.received c (rest - min 7 rest) start blockSize
    (blockCount + 1)) : InBlock w.received c rest start blockSize blockCount := by
  obtain ⟨hsize, hcount, hblock, hmeets⟩ := h
  refine ⟨hsize, by omega, by omega, ?_⟩
  have hsame : rest - 7 * (blockSize.toNat - blockCount) =
      rest - min 7 rest - 7 * (blockSize.toNat - (blockCount + 1)) := by omega
  rw [hsame]
  exact hmeets

variable {expected : Byte} {data bytes assembled : List Byte} {totalLength : Nat}

/-- `decodeSingleFrame` on a frame that has a first byte. -/
theorem decodeSingleFrame_cons {pci : Byte} : decodeSingleFrame (pci :: bytes) =
    (if pci &&& 0x0F = 0 ∨ 7 < pci &&& 0x0F then
      .error (.isoTpError ("Invalid Single Frame length: " ++ toString (pci &&& 0x0F).toNat))
    else if (pci :: bytes).length < (pci &&& 0x0F).toNat + 1 then
      .error (.isoTpError "Single Frame payload is shorter than its PCI length")
    else .ok (bytes.take (pci &&& 0x0F).toNat)) := rfl

end IsoTpClient

end Gateway
