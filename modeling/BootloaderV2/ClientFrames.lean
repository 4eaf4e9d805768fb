import BootloaderV2.ClientRequests
import BootloaderV2.Lib.Framing

/-!
# The frames of the ISO-TP client

With a flow control that lets everything through, a request is sent in the segments of its payload;
and from the segments of a response the client puts together its payload.
-/

namespace Gateway

open RaiseM (lift Keeps Settles)

namespace IsoTpClient

variable {w : World} {c : IsoTpClient} {s : Io} {fuel : Nat} {deadline timeout : Rat}

/-! ## Waiting sends nothing -/

theorem keeps_sent_monotonic {x : List (Nat × List Byte)} :
    Keeps (fun s => s.sent = x) (monotonic w) := fun _ hs => hs

theorem keeps_sent_receive {x : List (Nat × List Byte)} :
    Keeps (fun s => s.sent = x) (receive w timeout) := by
  intro s hs
  have hsame : Io.sent { s with log := s.log ++ [.receive timeout] } = s.sent :=
    (s.sent_append _).trans (List.append_nil _)
  exact hsame.trans hs

theorem keeps_sent_receiveLoop {x : List (Nat × List Byte)} :
    Keeps (fun s => s.sent = x) (receiveLoop w c deadline fuel) := by
  induction fuel with
  | zero => exact .exhausted
  | succ fuel ih =>
    unfold receiveLoop
    apply keeps_sent_monotonic.bind
    intro now
    apply Keeps.ite
    · exact fun _ => .raise
    · intro _
      apply keeps_sent_receive.bind
      intro arrived
      cases arrived with
      | none =>
        apply keeps_sent_monotonic.bind
        intro later
        exact Keeps.ite (fun _ => .raise) fun _ => ih
      | some frame => exact Keeps.ite (fun _ => .pure) fun _ => ih

theorem sent_receiveResponseFrame {res : Except PyError CanFrame} {s' : Io}
    (h : Settles (receiveResponseFrame w c timeout) s (res, s')) : s'.sent = s.sent := by
  obtain ⟨fuel, hfuel⟩ := h.exists_eq
  have hkeeps : Keeps (fun s' => s'.sent = s.sent) (receiveResponseFrame w c timeout fuel) :=
    keeps_sent_monotonic.bind fun _ => keeps_sent_receiveLoop
  have hsent := hkeeps s rfl
  cases res with
  | ok frame => exact hsent.of_ok hfuel
  | error e => exact hsent.of_error hfuel

/-! ## Sending -/

variable {payload : List Byte}

/-- The frames of the loop of `_send_multi_frame`, which waits for nothing if no block size is set. -/
theorem settles_sendLoop_unlimited {k blockCount : Nat} (hk : 1 ≤ k)
    (hle : k ≤ Framing.count payload + 1) : ∃ s', s'.receives = s.receives ∧
      s'.sent = s.sent ++ (Framing.consecutives payload k).map (fun data => (c.requestId, data)) ∧
      Settles (sendLoop w c payload (min (7 * k - 1) payload.length) (BitVec.ofNat 8 (k % 16))
        blockCount 0 0) s (.ok (), s') := by
  induction hrest : Framing.count payload + 1 - k generalizing k blockCount s with
  | zero =>
    have hdone : payload.length ≤ min (7 * k - 1) payload.length := by
      unfold Framing.count at hrest hle
      omega
    refine ⟨s, rfl, ?_, .last fun fuel => sendLoop_done hdone⟩
    rw [Framing.consecutives_nil (by omega)]
    exact (List.append_nil _).symm
  | succ rest ih =>
    have hoffset : min (7 * k - 1) payload.length = 7 * k - 1 := by
      unfold Framing.count at hrest
      omega
    have hlt : 7 * k - 1 < payload.length := by
      unfold Framing.count at hrest
      omega
    have hnext : 7 * k - 1 + min 7 (payload.length - (7 * k - 1)) =
        min (7 * (k + 1) - 1) payload.length := by omega
    obtain ⟨s₁, hreceives₁, hsent₁, hstep⟩ := @sendLoop_succ w c s payload (7 * k - 1) blockCount
      (BitVec.ofNat 8 (k % 16)) 0 0 hlt
    have hgoes : ¬ ((0 : Byte) ≠ 0 ∧ (0 : Byte).toNat ≤ blockCount + 1 ∧
        7 * k - 1 + min 7 (payload.length - (7 * k - 1)) < payload.length) := fun h => h.1 rfl
    simp only [if_neg hgoes] at hstep
    rw [hnext, Framing.next_number] at hstep
    obtain ⟨s₂, hreceives₂, hsent₂, hsettles⟩ := @ih s₁ (k + 1) (blockCount + 1) (by omega)
      (by omega) (by omega)
    rw [hoffset]
    refine ⟨s₂, hreceives₂.trans hreceives₁, ?_, hsettles.succ hstep⟩
    rw [hsent₂, hsent₁, Framing.consecutive_pci, Framing.consecutives_succ (n := k) (by omega),
      List.map_cons, List.append_assoc]
    rfl

/-- What `request` does before it waits for the response. -/
def sendRequest (w : World) (c : IsoTpClient) (payload : List Byte) (fuel : Nat) : Py Unit :=
  if payload.length ≤ 7 then sendSingleFrame c payload else sendMultiFrame w c payload fuel

theorem firstBytes (h : payload.length ≤ 0xFFF) :
    [BitVec.ofNat 8 (0x10 ||| ((payload.length >>> 8) &&& 0x0F)),
      BitVec.ofNat 8 (payload.length &&& 0xFF)] ++ payload.take 6 = Framing.first payload := by
  have hhigh : (payload.length >>> 8) &&& 0x0F = payload.length / 256 := by
    rw [Nat.shiftRight_eq_div_pow]
    have hmod : payload.length / 2 ^ 8 &&& 0x0F = payload.length / 2 ^ 8 % 16 :=
      Nat.and_two_pow_sub_one_eq_mod _ 4
    rw [hmod]
    omega
  have hlow : payload.length &&& 0xFF = payload.length % 256 :=
    Nat.and_two_pow_sub_one_eq_mod _ 8
  have hor : ∀ x : Fin 16, 0x10 ||| x.val = 0x10 + x.val := by decide
  rw [hhigh, hlow, hor ⟨payload.length / 256, by omega⟩]
  rfl

/-- A request is sent in its segments, if the flow control after a first frame asks for no blocks and
    no pauses; or the wait for it takes too long. -/
theorem settles_sendRequest {frame : CanFrame} {next : Nat}
    (hlength : payload.length ≤ 0xFFF)
    (hclears : 7 < payload.length → Arrives w.received c s.receives frame next ∧
      firstFlowControl frame.data = .ok (0, 0)) :
    ∃ res s', Settles (sendRequest w c payload) s (res, s') ∧
      ((res = .ok () ∧ s'.sent = s.sent ++
          (Framing.segments payload).map fun data => (c.requestId, data)) ∨
        (res = .error c.timedOut ∧ w.Overruns c.responseTimeout)) := by
  unfold sendRequest Framing.segments
  by_cases hshort : payload.length ≤ 7
  · obtain ⟨s', -, hsent, hsend⟩ := @send_singleFrame c s payload hshort
    refine ⟨.ok (), s', ?_, .inl ⟨rfl, ?_⟩⟩
    · simp only [if_pos hshort]
      exact .const hsend
    · rw [if_pos hshort]
      exact hsent
  · simp only [if_neg hshort]
    obtain ⟨harrives, hflow⟩ := hclears (Nat.lt_of_not_le hshort)
    obtain ⟨s₁, hreceives, hsent, hsend⟩ := @sendMultiFrame_eq w c s payload
    rw [firstBytes hlength] at hsent
    obtain ⟨res, s₂, hreceive, hcases⟩ := settles_receiveResponseFrame harrives hreceives
    have hsame := sent_receiveResponseFrame hreceive
    rcases hcases with ⟨rfl, -⟩ | ⟨rfl, hover⟩
    · obtain ⟨s₃, -, hsent₃, hloop⟩ := @settles_sendLoop_unlimited w c s₂ payload 1 0
        le_rfl (Nat.le_add_left 1 _)
      have hoffset : min (7 * 1 - 1) payload.length = 6 := by omega
      rw [hoffset] at hloop
      have hparameters : (lift (firstFlowControl frame.data) : Py (Byte × Rat)) s₂ =
          some (.ok (0, 0), s₂) := by
        rw [hflow]
        rfl
      have hblock : Settles (nextBlock w c firstFlowControl payload 6 1) s₁ (.ok (), s₃) :=
        hreceive.bind (.bind (.const hparameters) hloop)
      refine ⟨.ok (), s₃, hblock.congr hsend, .inl ⟨rfl, ?_⟩⟩
      rw [hsent₃, hsame, hsent, List.map_cons, List.append_assoc]
      rfl
    · have hblock : Settles (nextBlock w c firstFlowControl payload 6 1) s₁
          (.error c.timedOut, s₂) := hreceive.bind_error
      exact ⟨_, s₂, hblock.congr hsend, .inr ⟨rfl, hover⟩⟩

/-! ## Receiving -/

/-- Responses with these identifiers and data arrive one after the other. -/
inductive ArriveAll (received : Nat → Option CanFrame) (c : IsoTpClient) :
    Nat → List (Nat × List Byte) → Prop where
  | nil {start : Nat} : ArriveAll received c start []
  | cons {start next : Nat} {frame : CanFrame} {rest : List (Nat × List Byte)}
    (h : Arrives received c start frame next) (hrest : ArriveAll received c next rest) :
    ArriveAll received c start ((frame.canId, frame.data) :: rest)

theorem ArriveAll.head {received : Nat → Option CanFrame} {start id : Nat} {data : List Byte}
    {rest : List (Nat × List Byte)} (h : ArriveAll received c start ((id, data) :: rest)) :
    ∃ frame next, Arrives received c start frame next ∧ frame.data = data ∧
      ArriveAll received c next rest := by
  cases h with
  | cons harrives hrest => exact ⟨_, _, harrives, rfl, hrest⟩

variable {id : Nat}

theorem consecutivePayload_segment (k : Nat) :
    consecutivePayload (BitVec.ofNat 8 (k % 16)) (Framing.consecutive payload k) =
      .ok ((Framing.consecutive payload k).drop 1) := by
  have htype : ∀ x : Fin 16,
      (BitVec.ofNat 8 (0x20 + x.val) : Byte) >>> 4 = pciTypeConsecutiveFrame := by
    decide +kernel
  have hsequence : ∀ x : Fin 16,
      (BitVec.ofNat 8 (0x20 + x.val) : Byte) &&& 0x0F = BitVec.ofNat 8 x.val := by
    decide +kernel
  have hlen := @Framing.length_consecutive payload k
  unfold Framing.consecutive Framing.pad at hlen ⊢
  rw [List.cons_append] at hlen ⊢
  unfold consecutivePayload
  dsimp only
  rw [if_neg (not_not.2 (htype ⟨k % 16, Nat.mod_lt k (by decide)⟩)),
    if_neg (not_not.2 (hsequence ⟨k % 16, Nat.mod_lt k (by decide)⟩)), if_neg (by omega)]
  rfl

theorem settles_assembleLoop {n : Nat} (hlong : 7 < payload.length)
    (hn : n ≤ Framing.count payload)
    (h : ArriveAll w.received c s.receives
      ((Framing.consecutives payload (n + 1)).map fun data => (id, data))) :
    ∃ res s', Settles (assembleLoop w c payload.length (Framing.gathered payload n)
        (BitVec.ofNat 8 ((n + 1) % 16))) s (res, s') ∧
      s'.sent = s.sent ∧
      (res = .ok payload ∨ (res = .error c.timedOut ∧ w.Overruns c.consecutiveFrameTimeout)) := by
  have hsucc : ∀ fuel, assembleLoop w c payload.length (Framing.gathered payload n)
      (BitVec.ofNat 8 ((n + 1) % 16)) (fuel + 1) s =
      (if (Framing.gathered payload n).length < payload.length then do
        let frame ← receiveResponseFrame w c c.consecutiveFrameTimeout fuel
        let bytes ← lift (consecutivePayload (BitVec.ofNat 8 ((n + 1) % 16)) frame.data)
        assembleLoop w c payload.length (Framing.gathered payload n ++ bytes)
          ((BitVec.ofNat 8 ((n + 1) % 16) + 1) &&& 0x0F) fuel
      else return (Framing.gathered payload n).take payload.length : Py (List Byte)) s :=
    fun _ => rfl
  induction hrest : Framing.count payload - n generalizing n s with
  | zero =>
    have hlast : n = Framing.count payload := by omega
    rw [hlast] at hsucc ⊢
    simp only [if_neg (Nat.not_lt.2 (Framing.gathered_long hlong)),
      Framing.gathered_count hlong] at hsucc
    exact ⟨_, s, .last hsucc, rfl, .inl rfl⟩
  | succ rest ih =>
    simp only [if_pos (Framing.gathered_short hlong (show n < _ by omega))] at hsucc
    rw [Framing.consecutives_succ (show n + 1 ≤ _ by omega), List.map_cons] at h
    obtain ⟨frame, next, harrives, hdata, hothers⟩ := h.head
    obtain ⟨res, s₁, hreceive, ⟨rfl, hnext⟩ | ⟨rfl, hover⟩⟩ :=
      @settles_receiveResponseFrame w c s c.consecutiveFrameTimeout _ _ _ harrives rfl
    · rw [← hnext] at hothers
      obtain ⟨res, s₂, hloop, hsent, hres⟩ :=
        @ih s₁ (n + 1) (by omega) hothers (fun _ => rfl) (by omega)
      have hpayload : (lift (consecutivePayload (BitVec.ofNat 8 ((n + 1) % 16)) frame.data) :
          Py (List Byte)) s₁ =
          some (.ok ((Framing.consecutive payload (n + 1)).drop 1), s₁) := by
        rw [hdata, consecutivePayload_segment]
        rfl
      rw [← Framing.next_number] at hloop
      refine ⟨res, s₂, .succ hsucc (hreceive.bind (.bind (.const hpayload) hloop)), ?_, hres⟩
      exact hsent.trans (sent_receiveResponseFrame hreceive)
    · exact ⟨_, s₁, .succ hsucc hreceive.bind_error, sent_receiveResponseFrame hreceive,
        .inr ⟨rfl, hover⟩⟩

theorem firstFrameLength_segment (hlong : 7 < payload.length) (hlength : payload.length ≤ 0xFFF) :
    firstFrameLength (Framing.first payload) = .ok payload.length := by
  have hlow : ∀ x : Fin 16, ((BitVec.ofNat 8 (0x10 + x.val) : Byte) &&& 0x0F).toNat = x.val := by
    decide +kernel
  have htotal : ((BitVec.ofNat 8 (0x10 + payload.length / 256) : Byte) &&& 0x0F).toNat <<< 8 |||
      (BitVec.ofNat 8 (payload.length % 256) : Byte).toNat = payload.length := by
    rw [hlow ⟨payload.length / 256, by omega⟩, BitVec.toNat_ofNat, Nat.mod_mod,
      ← Nat.shiftLeft_add_eq_or_of_lt (Nat.mod_lt payload.length (by decide)), Nat.shiftLeft_eq]
    exact Nat.div_add_mod' payload.length 256
  have hfull := Framing.length_first hlong
  unfold firstFrameLength
  rw [if_neg (by omega)]
  show (if _ ≤ 7 then _ else _ : Except PyError Nat) = _
  rw [htotal, if_neg (by omega)]

theorem decodeSingleFrame_segment (hlength : 1 ≤ payload.length ∧ payload.length ≤ 7) :
    decodeSingleFrame (Framing.single payload) = .ok payload := by
  have hlow : ∀ x : Fin 8, (BitVec.ofNat 8 x.val : Byte) &&& 0x0F = BitVec.ofNat 8 x.val := by
    decide +kernel
  have hnibble := hlow ⟨payload.length, by omega⟩
  have htoNat : (BitVec.ofNat 8 payload.length : Byte).toNat = payload.length := by
    rw [BitVec.toNat_ofNat]
    omega
  have hfull := Framing.length_single hlength.2
  unfold Framing.single Framing.pad at hfull ⊢
  rw [List.cons_append] at hfull ⊢
  rw [decodeSingleFrame_cons, hnibble, htoNat, if_neg, if_neg (by omega)]
  · rw [List.take_left' rfl]
  · rw [not_or, BitVec.not_lt, BitVec.le_def, htoNat]
    constructor
    · intro hzero
      rw [hzero] at htoNat
      have : (0 : Byte).toNat = 0 := rfl
      omega
    · exact hlength.2

/-- The bytes of a first frame are those of a response that goes on. -/
theorem decodeResponse_first {frame : CanFrame} (hlong : 7 < payload.length)
    (hlength : payload.length ≤ 0xFFF) (hdata : frame.data = Framing.first payload) :
    decodeResponse w c frame fuel = (do
      sendFlowControl c
      assembleLoop w c payload.length (Framing.gathered payload 0) 1 fuel) := by
  have htype : ∀ x : Fin 16,
      (BitVec.ofNat 8 (0x10 + x.val) : Byte) >>> 4 = pciTypeFirstFrame := by
    decide +kernel
  have hpci := htype ⟨payload.length / 256, by omega⟩
  have hsingle : ¬ (BitVec.ofNat 8 (0x10 + payload.length / 256) : Byte) >>> 4 =
      pciTypeSingleFrame := by
    rw [hpci]
    decide
  have hgathered : ((Framing.first payload).drop 2).take 6 = Framing.gathered payload 0 := by
    show (payload.take 6).take 6 = payload.take 6
    rw [List.take_take, Nat.min_self]
  have hmulti : receiveMultiFrame w c (Framing.first payload) fuel = (do
      sendFlowControl c
      assembleLoop w c payload.length (Framing.gathered payload 0) 1 fuel) := by
    unfold receiveMultiFrame
    rw [firstFrameLength_segment hlong hlength, hgathered]
    rfl
  unfold decodeResponse
  rw [hdata]
  show (if (BitVec.ofNat 8 (0x10 + payload.length / 256) : Byte) >>> 4 = pciTypeSingleFrame then _
    else if (BitVec.ofNat 8 (0x10 + payload.length / 256) : Byte) >>> 4 = pciTypeFirstFrame then _
    else _ : Py (List Byte)) = _
  rw [if_neg hsingle, if_pos hpci, hmulti]

theorem decodeResponse_single {frame : CanFrame}
    (hlength : 1 ≤ payload.length ∧ payload.length ≤ 7) (hdata : frame.data = Framing.single payload) :
    decodeResponse w c frame fuel = lift (.ok payload) := by
  have htype : ∀ x : Fin 8, (BitVec.ofNat 8 x.val : Byte) >>> 4 = pciTypeSingleFrame := by
    decide +kernel
  unfold decodeResponse
  rw [hdata]
  show (if (BitVec.ofNat 8 payload.length : Byte) >>> 4 = pciTypeSingleFrame then
    lift (decodeSingleFrame (Framing.single payload)) else _ : Py (List Byte)) = _
  rw [if_pos (htype ⟨payload.length, by omega⟩), decodeSingleFrame_segment hlength]

/-- A response that arrives in its segments is put together, after a flow control that asks for no
    blocks and no pauses; or a wait for one of its frames takes too long. -/
theorem settles_receiveResponse (hlength : 1 ≤ payload.length ∧ payload.length ≤ 0xFFF)
    (h : ArriveAll w.received c s.receives
      ((Framing.segments payload).map fun data => (id, data))) :
    ∃ res s', Settles (receiveResponse w c timeout) s (res, s') ∧
      ((res = .ok payload ∧ s'.sent = s.sent ++ (if payload.length ≤ 7 then []
          else [(c.requestId, [0x30, 0, 0, 0, 0, 0, 0, 0])])) ∨
        (res = .error c.timedOut ∧
          (w.Overruns timeout ∨ w.Overruns c.consecutiveFrameTimeout))) := by
  unfold Framing.segments at h
  by_cases hshort : payload.length ≤ 7
  · rw [if_pos hshort, List.map_cons] at h
    obtain ⟨frame, next, harrives, hdata, -⟩ := h.head
    obtain ⟨res, s₁, hreceive, ⟨rfl, -⟩ | ⟨rfl, hover⟩⟩ :=
      @settles_receiveResponseFrame w c s timeout _ _ _ harrives rfl
    · have hdecode : Settles (decodeResponse w c frame) s₁ (.ok payload, s₁) := by
        refine ⟨0, fun fuel _ => ?_⟩
        rw [decodeResponse_single ⟨hlength.1, hshort⟩ hdata]
        rfl
      refine ⟨_, s₁, hreceive.bind hdecode, .inl ⟨rfl, ?_⟩⟩
      rw [sent_receiveResponseFrame hreceive, if_pos hshort, List.append_nil]
    · exact ⟨_, s₁, hreceive.bind_error, .inr ⟨rfl, .inl hover⟩⟩
  · have hlong : 7 < payload.length := Nat.lt_of_not_le hshort
    rw [if_neg hshort, List.map_cons] at h
    obtain ⟨frame, next, harrives, hdata, hothers⟩ := h.head
    obtain ⟨res, s₁, hreceive, ⟨rfl, hnext⟩ | ⟨rfl, hover⟩⟩ :=
      @settles_receiveResponseFrame w c s timeout _ _ _ harrives rfl
    · obtain ⟨s₂, hreceives, hsent₂, hsend⟩ := @send_flowControl c s₁
      rw [← hnext, ← hreceives] at hothers
      obtain ⟨res, s₃, hloop, hsent₃, hres⟩ :=
        @settles_assembleLoop w c s₂ payload id 0 hlong (Nat.zero_le _) hothers
      have hall : Settles (fun fuel => do
          sendFlowControl c
          assembleLoop w c payload.length (Framing.gathered payload 0) 1 fuel) s₁ (res, s₃) :=
        Settles.bind (.const hsend) hloop
      have hdecode : Settles (decodeResponse w c frame) s₁ (res, s₃) := by
        apply hall.congr
        intro fuel
        rw [decodeResponse_first hlong hlength.2 hdata]
      refine ⟨res, s₃, hreceive.bind hdecode, ?_⟩
      rcases hres with hok | ⟨hout, hover⟩
      · left
        rw [hsent₃, hsent₂, sent_receiveResponseFrame hreceive, if_neg hshort]
        exact ⟨hok, rfl⟩
      · exact .inr ⟨hout, .inr hover⟩
    · exact ⟨_, s₁, hreceive.bind_error, .inr ⟨rfl, .inl hover⟩⟩

end IsoTpClient

end Gateway
