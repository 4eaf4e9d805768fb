import BootloaderV2.ClientErrors

/-!
# Requests and responses of the ISO-TP client

A request or the wait for a late response returns what was announced, or raises an error of the
client's own, in every world.  Requests do so exactly if no short clear-to-send is met between their
consecutive frames.
-/

namespace Gateway

open RaiseM (raise lift exhausted Ensures Keeps Settles Ends)

namespace IsoTpClient

variable {w : World} {c : IsoTpClient} {s : Io} {fuel : Nat} {timeout : Rat}

/-! ## Decoding -/

theorem send_flowControl : ∃ s', s'.receives = s.receives ∧
    s'.sent = s.sent ++ [(c.requestId, [0x30, 0, 0, 0, 0, 0, 0, 0])] ∧
    sendFlowControl c s = some (.ok (), s') :=
  send_request (by decide)

variable {payload : List Byte}

theorem send_singleFrame (hshort : payload.length ≤ 7) :
    ∃ s', s'.receives = s.receives ∧
      s'.sent = s.sent ++ [(c.requestId, ljust (BitVec.ofNat 8 payload.length :: payload))] ∧
      sendSingleFrame c payload s = some (.ok (), s') := by
  apply send_request
  rw [length_ljust]
  rw [List.length_cons]
  omega

/-- After the first frame the flow control is waited for. -/
theorem sendMultiFrame_eq : ∃ s', s'.receives = s.receives ∧
    s'.sent = s.sent ++ [(c.requestId, [BitVec.ofNat 8 (0x10 ||| ((payload.length >>> 8) &&& 0x0F)),
      BitVec.ofNat 8 (payload.length &&& 0xFF)] ++ payload.take 6)] ∧
    ∀ fuel, sendMultiFrame w c payload fuel s =
      nextBlock w c firstFlowControl payload 6 1 fuel s' := by
  have hframe : ([BitVec.ofNat 8 (0x10 ||| ((payload.length >>> 8) &&& 0x0F)),
      BitVec.ofNat 8 (payload.length &&& 0xFF)] ++ payload.take 6).length ≤ 8 := by
    rw [List.length_append, List.length_take]
    exact Nat.add_le_add_left (Nat.min_le_left _ _) 2
  let first : CanFrame := ⟨c.requestId, _, c.request_standard, hframe⟩
  refine ⟨{ s with log := s.log ++ [.send first] }, rfl, s.sent_append _, fun fuel => ?_⟩
  unfold sendMultiFrame
  rw [make_request hframe]
  rfl

/-! ## What is waited for -/

/-- Every time the bus was asked, it was to wait for at most `longest`. -/
def Patient (longest : Rat) (s : Io) : Prop :=
  ∀ t, Action.receive t ∈ s.log → 0 < t ∧ t ≤ longest

variable {longest : Rat} {offset blockCount totalLength : Nat} {sequence blockSize expected : Byte}
  {stmin : Rat} {data assembled : List Byte}

theorem WaitsFor.patient {remaining : Rat} {s' : Io} (h : WaitsFor remaining s s')
    (hs : Patient longest s) (hlong : remaining ≤ longest) : Patient longest s' := by
  intro t ht
  rcases h t ht with hold | ⟨hpos, rfl⟩
  · exact hs t hold
  · exact ⟨hpos, hlong⟩

/-- What is done besides asking the bus. -/
theorem Patient.append {actions : List Action} (hs : Patient longest s)
    (h : ∀ t, Action.receive t ∉ actions) :
    Patient longest { s with log := s.log ++ actions } := by
  intro t ht
  rcases List.mem_append.1 ht with hold | hnew
  · exact hs t hold
  · exact absurd hnew (h t)

def Io.start : Io := ⟨0, 0, []⟩

end IsoTpClient

end Gateway
