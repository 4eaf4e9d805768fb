import BootloaderV2.ClientFrames
import BootloaderV2.IsoTpTransmit

/-!
# Requests and responses between the client and the bootloader

What the client sends is delivered by the bootloader, and what the bootloader sends is put together
by the client, with the flow controls that each side gives to the other.
-/

open BootCan (Frame)

/-- A frame with this identifier and these data, as the bootloader has received or sent it. -/
structure OnWire (id : Nat) (data : List Byte) (frame : Frame) : Prop where
  id : frame.id = BitVec.ofNat 32 id
  dlc : frame.dlc.toNat = data.length
  data : ∀ i, i < data.length → frame.data i = data.getD i 0

namespace BootIsoTp

open Framing (single first consecutive segments gathered count)

/-! ## The frames of a request -/

variable {message data : List Byte} {frame : Frame} {r r' : Receiver} {n t : Nat}

theorem bytesFrom_onWire {id : Nat} (h : OnWire id data frame) {index size : Nat}
    (hle : index + size ≤ data.length) : frame.bytesFrom index size = (data.drop index).take size := by
  unfold BootCan.Frame.bytesFrom
  apply List.ext_getElem?
  intro i
  rw [List.getElem?_map]
  by_cases hi : i < size
  · rw [List.getElem?_range hi, List.getElem?_take, if_pos hi, List.getElem?_drop, Option.map_some,
      h.data (i + index) (by omega), List.getD_eq_getElem?_getD, Nat.add_comm i index,
      List.getElem?_eq_getElem (by omega)]
    rfl
  · rw [List.getElem?_eq_none (by simpa using hi), List.getElem?_take, if_neg hi]
    rfl

theorem heard_onWire (h : OnWire 0x7E0 data frame) (hlen : data.length = 8) : frame.Heard := by
  refine ⟨h.id, fun hzero => ?_⟩
  have hdlc := h.dlc
  rw [hzero, hlen] at hdlc
  cases hdlc

theorem isSingle_onWire (hlen : 1 ≤ message.length ∧ message.length ≤ 7)
    (h : OnWire 0x7E0 (single message) frame) :
    frame.IsSingle ∧ frame.bytesFrom 1 frame.low = message := by
  have hfull := Framing.length_single hlen.2
  have hfirst : frame.data 0 = BitVec.ofNat 8 message.length := h.data 0 (by omega)
  have htoNat : (frame.data 0).toNat = message.length := by
    rw [hfirst, BitVec.toNat_ofNat]
    omega
  have hlow : frame.low = message.length := by
    unfold BootCan.Frame.low
    omega
  refine ⟨⟨heard_onWire h hfull, ?_, ?_, ?_, ?_⟩, ?_⟩
  · unfold BootCan.Frame.kind
    omega
  · omega
  · omega
  · rw [hlow, h.dlc]
    omega
  · rw [hlow, bytesFrom_onWire h (by omega)]
    unfold single Framing.pad
    rw [List.cons_append, List.drop_succ_cons, List.drop_zero, List.take_left' rfl]

theorem isFirst_onWire (hlong : 7 < message.length) (hmax : message.length ≤ maxPduLength)
    (h : OnWire 0x7E0 (first message) frame) :
    frame.IsFirst ∧ frame.announced = message.length ∧
      frame.bytesFrom 2 6 = gathered message 0 := by
  have h256 : maxPduLength = 256 := rfl
  have hfull := Framing.length_first hlong
  have hhigh : (frame.data 0).toNat = 0x10 + message.length / 256 := by
    have hbyte : frame.data 0 = BitVec.ofNat 8 (0x10 + message.length / 256) := h.data 0 (by omega)
    rw [hbyte, BitVec.toNat_ofNat]
    omega
  have hlow : (frame.data 1).toNat = message.length % 256 := by
    have hbyte : frame.data 1 = BitVec.ofNat 8 (message.length % 256) := h.data 1 (by omega)
    rw [hbyte, BitVec.toNat_ofNat]
    omega
  have hannounced : frame.announced = message.length := by
    unfold BootCan.Frame.announced BootCan.Frame.low
    omega
  refine ⟨⟨heard_onWire h hfull, ?_, ?_, ?_, ?_⟩, hannounced, ?_⟩
  · unfold BootCan.Frame.kind
    omega
  · rw [h.dlc, hfull]
  · omega
  · omega
  · rw [bytesFrom_onWire h (by omega)]
    show (message.take 6).take 6 = message.take 6
    rw [List.take_take, Nat.min_self]

theorem isConsecutive_onWire {k : Nat} (h : OnWire 0x7E0 (consecutive message k) frame) :
    frame.IsConsecutive ∧ frame.low = k % 16 ∧ frame.dlc.toNat = 8 ∧
      frame.bytesFrom 1 7 = (consecutive message k).drop 1 := by
  have hfull := @Framing.length_consecutive message k
  have hfirst : (frame.data 0).toNat = 0x20 + k % 16 := by
    have hbyte : frame.data 0 = BitVec.ofNat 8 (0x20 + k % 16) := h.data 0 (by omega)
    rw [hbyte, BitVec.toNat_ofNat]
    omega
  refine ⟨⟨heard_onWire h hfull, ?_⟩, ?_, h.dlc.trans hfull, ?_⟩
  · unfold BootCan.Frame.kind
    omega
  · unfold BootCan.Frame.low
    omega
  · rw [bytesFrom_onWire h (by omega)]
    apply List.take_of_length_le
    rw [List.length_drop]
    omega

/-! ## Calls between the frames -/

theorem run_cons {poll : Option Frame} {polls : List (Option Frame)} {result : Bool}
    {results : List Bool} {r₁ r₂ : Receiver} (h : mainFunction poll r = some (result, r₁))
    (hrest : run polls r₁ = some (results, r₂)) :
    run (poll :: polls) r = some (result :: results, r₂) := by
  show (mainFunction poll r).bind (fun x => (run polls x.2).bind fun y =>
    some (x.1 :: y.1, y.2)) = _
  rw [h, Option.bind_some, hrest, Option.bind_some]

theorem run_append {polls polls' : List (Option Frame)} {results results' : List Bool}
    {r₁ r₂ : Receiver} (h : run polls r = some (results, r₁))
    (h' : run polls' r₁ = some (results', r₂)) :
    run (polls ++ polls') r = some (results ++ results', r₂) := by
  induction polls generalizing r results with
  | nil =>
    cases h
    exact h'
  | cons poll polls ih =>
    obtain ⟨p, hstep, hbind⟩ := Option.bind_eq_some_iff.1 h
    obtain ⟨q, hrest, hresult⟩ := Option.bind_eq_some_iff.1 hbind
    cases hresult
    exact run_cons hstep (ih hrest)

/-- A call that finds no frame for the server only counts. -/
theorem mainFunction_other {poll : Option Frame} (h : Other poll) :
    mainFunction poll r = some (false, countCall r) := by
  unfold mainFunction
  cases poll with
  | none => rfl
  | some frame => exact if_pos (.inl (h frame rfl))

theorem run_other {polls : List (Option Frame)} (h : ∀ poll ∈ polls, Other poll) :
    ∃ r', run polls r = some (List.replicate polls.length false, r') ∧ r'.request = r.request := by
  induction polls generalizing r with
  | nil => exact ⟨r, rfl, rfl⟩
  | cons poll polls ih =>
    obtain ⟨r', hrest, hrequest⟩ := @ih (countCall r) fun q hq => h q (List.mem_cons_of_mem _ hq)
    have hsame : (countCall r).request = r.request := by
      unfold countCall
      split
      · split <;> rfl
      · rfl
    exact ⟨r', run_cons (mainFunction_other (h poll List.mem_cons_self)) hrest,
      hrequest.trans hsame⟩

variable {ff : Frame} {bytes : List Byte}

/-- While a request is in time it is kept. -/
theorem holds_other {polls : List (Option Frame)} (h : ∀ poll ∈ polls, Other poll)
    (hr : Holds ff n t bytes r) (htime : t + polls.length < timeoutLoops.toNat) :
    ∃ r', run polls r = some (List.replicate polls.length false, r') ∧
      Holds ff n (t + polls.length) bytes r' := by
  induction polls generalizing r t with
  | nil => exact ⟨r, rfl, hr⟩
  | cons poll polls ih =>
    rw [List.length_cons] at htime
    have hcounted : Holds ff n (t + 1) bytes (countCall r) := hr.countCall (by omega)
    obtain ⟨r', hrest, hr'⟩ := ih (fun q hq => h q (List.mem_cons_of_mem _ hq)) hcounted (by omega)
    refine ⟨r', run_cons (mainFunction_other (h poll List.mem_cons_self)) hrest, ?_⟩
    have hsum : t + (poll :: polls).length = t + 1 + polls.length := by
      rw [List.length_cons]
      omega
    rw [hsum]
    exact hr'

/-! ## The calls with the frames -/

theorem mainFunction_heard (hheard : frame.Heard) : mainFunction (some frame) r =
    (if frame.data 0 &&& typeMask = singleFrame then receiveSingle frame (countCall r)
    else if frame.data 0 &&& typeMask = firstFrame then receiveFirst frame (countCall r)
    else if frame.data 0 &&& typeMask = consecutiveFrame ∧ (countCall r).rxState = .waitCf then
      receiveConsecutive frame (countCall r)
    else some (false, countCall r)) := by
  unfold mainFunction
  dsimp only
  rw [if_neg]
  rw [not_or, not_not]
  exact hheard

theorem mainFunction_single (h : frame.IsSingle) :
    ∃ r', mainFunction (some frame) r = some (true, r') ∧
      r'.request.payload = frame.bytesFrom 1 frame.low := by
  rw [mainFunction_heard h.heard, if_pos (single_iff.2 h.kind)]
  rcases receiveSingle_spec h.heard h.kind (countCall r) with ⟨-, request, heq, hpayload⟩ | ⟨hno, -⟩
  · exact ⟨_, heq, hpayload⟩
  · exact absurd h hno

theorem mainFunction_first (h : frame.IsFirst) :
    ∃ r', mainFunction (some frame) r = some (false, r') ∧
      Holds frame 0 0 (frame.bytesFrom 2 6) r' := by
  have hsingle : ¬ frame.data 0 &&& typeMask = singleFrame :=
    fun hs => absurd (h.kind.symm.trans (single_iff.1 hs)) (by decide)
  rw [mainFunction_heard h.heard, if_neg hsingle, if_pos (first_iff.2 h.kind)]
  rcases receiveFirst_spec h.heard h.kind (countCall r) with ⟨-, r', heq, hholds⟩ | ⟨hno, -⟩
  · exact ⟨r', heq, hholds⟩
  · exact absurd h hno

/-- The next frame in time is added to what is held, or completes it. -/
theorem mainFunction_consecutive (hr : Holds ff n t bytes r) (htime : t + 1 < timeoutLoops.toNat)
    (h : frame.IsConsecutive) (hlow : frame.low = (n + 1) % 16) (hdlc : frame.dlc.toNat = 8) :
    ∃ result r', mainFunction (some frame) r = some (result, r') ∧
      ((result = false ∧ Holds ff (n + 1) 0 (bytes ++ frame.bytesFrom 1 7) r') ∨
        (result = true ∧ ff.announced ≤ (bytes ++ frame.bytesFrom 1 7).length ∧
          r'.request.payload = (bytes ++ frame.bytesFrom 1 7).take ff.announced)) := by
  have hcounted := hr.countCall htime
  have hshare : share ff bytes ≤ 7 := Nat.min_le_left _ _
  have hsingle : ¬ frame.data 0 &&& typeMask = singleFrame :=
    fun hs => absurd (h.kind.symm.trans (single_iff.1 hs)) (by decide)
  have hfirst : ¬ frame.data 0 &&& typeMask = firstFrame :=
    fun hs => absurd (h.kind.symm.trans (first_iff.1 hs)) (by decide)
  rw [mainFunction_heard h.heard, if_neg hsingle, if_neg hfirst,
    if_pos ⟨consecutive_iff.2 h.kind, hcounted.state⟩]
  rcases receiveConsecutive_spec hcounted frame with
    ⟨hno, -⟩ | ⟨-, -, ⟨r', heq, hholds⟩ | ⟨hdone, r', heq, hpayload⟩⟩
  · omega
  · exact ⟨false, r', heq, .inl ⟨rfl, hholds⟩⟩
  · exact ⟨true, _, heq, .inr ⟨rfl, hdone, hpayload⟩⟩

/-! ## A request among other frames -/

/-- The polls find frames with these data, the last one at the end, with other frames and no frames
    before the first and fewer than `limit` between two. -/
inductive Carries (limit : Nat) : List (List Byte) → List (Option Frame) → Prop where
  | start {others : List (Option Frame)} {data : List Byte} {frame : Frame}
    (hothers : ∀ poll ∈ others, Other poll) (hframe : OnWire 0x7E0 data frame) :
    Carries limit [data] (others ++ [some frame])
  | next {frames : List (List Byte)} {polls others : List (Option Frame)} {data : List Byte}
    {frame : Frame} (h : Carries limit frames polls) (hothers : ∀ poll ∈ others, Other poll)
    (hlimit : others.length < limit) (hframe : OnWire 0x7E0 data frame) :
    Carries limit (frames ++ [data]) (polls ++ (others ++ [some frame]))

theorem Carries.ne_nil {limit : Nat} {frames : List (List Byte)} {polls : List (Option Frame)}
    (h : Carries limit frames polls) : frames ≠ [] := by
  cases h with
  | start => exact List.cons_ne_nil _ _
  | next => exact List.append_ne_nil_of_right_ne_nil _ (List.cons_ne_nil _ _)

theorem Carries.single {limit : Nat} {polls : List (Option Frame)} (h : Carries limit [data] polls) :
    ∃ others frame, polls = others ++ [some frame] ∧ (∀ poll ∈ others, Other poll) ∧
      OnWire 0x7E0 data frame := by
  generalize hframes : [data] = frames at h
  cases h with
  | start hothers hframe =>
    cases hframes
    exact ⟨_, _, rfl, hothers, hframe⟩
  | next hrest hothers hlimit hframe =>
    rw [← List.nil_append [data]] at hframes
    obtain ⟨hnil, -⟩ := List.append_inj' hframes rfl
    exact absurd hnil.symm hrest.ne_nil

theorem Carries.last {limit : Nat} {frames : List (List Byte)} {polls : List (Option Frame)}
    (h : Carries limit (frames ++ [data]) polls) (hframes : frames ≠ []) :
    ∃ polls' others frame, polls = polls' ++ (others ++ [some frame]) ∧ Carries limit frames polls' ∧
      (∀ poll ∈ others, Other poll) ∧ others.length < limit ∧ OnWire 0x7E0 data frame := by
  generalize hall : frames ++ [data] = all at h
  cases h with
  | start hothers hframe =>
    have hlength := congrArg List.length hall
    rw [List.length_append] at hlength
    have hpos := List.length_pos_iff.2 hframes
    simp only [List.length_singleton] at hlength
    omega
  | next hrest hothers hlimit hframe =>
    obtain ⟨rfl, hdata⟩ := List.append_inj' hall rfl
    cases hdata
    exact ⟨_, _, _, rfl, hrest, hothers, hlimit, hframe⟩

/-- The results of calls that deliver nothing. -/
theorem replicate_append_false (polls polls' : List (Option Frame)) :
    List.replicate polls.length false ++ List.replicate polls'.length false =
      List.replicate (polls ++ polls').length false := by
  rw [List.replicate_append_replicate, List.length_append]

/-- Nothing is delivered before the last frame, and what has come so far is held. -/
theorem run_carries {limit : Nat} {polls : List (Option Frame)}
    (hlimit : limit < timeoutLoops.toNat) (hlong : 7 < message.length)
    (hmax : message.length ≤ maxPduLength) (hn : n < count message)
    (h : Carries limit ((segments message).take (n + 1)) polls) :
    ∃ ff r', run polls r = some (List.replicate polls.length false, r') ∧
      ff.announced = message.length ∧ Holds ff n 0 (gathered message n) r' := by
  induction n generalizing polls with
  | zero =>
    rw [Framing.take_one_segments hlong] at h
    obtain ⟨others, frame, rfl, hothers, hframe⟩ := h.single
    obtain ⟨hfirst, hannounced, hbytes⟩ := isFirst_onWire hlong hmax hframe
    obtain ⟨r₁, hrun, -⟩ := @run_other r others hothers
    obtain ⟨r₂, hcall, hholds⟩ := @mainFunction_first _ r₁ hfirst
    rw [hbytes] at hholds
    have hlast : run [some frame] r₁ = some ([false], r₂) := run_cons hcall rfl
    refine ⟨frame, r₂, ?_, hannounced, hholds⟩
    rw [run_append hrun hlast]
    exact congrArg some (congrArg (·, r₂) (replicate_append_false others [some frame]))
  | succ n ih =>
    rw [Framing.take_succ_segments hlong (by omega)] at h
    have hframes : (segments message).take (n + 1) ≠ [] := by
      rw [Framing.segments_long hlong]
      exact List.cons_ne_nil _ _
    obtain ⟨polls', others, frame, rfl, hbefore, hothers, hfew, hframe⟩ := h.last hframes
    obtain ⟨ff, r₁, hrun, hannounced, hholds⟩ := ih (by omega) hbefore
    obtain ⟨r₂, hrun', hholds'⟩ := holds_other hothers hholds (by omega)
    obtain ⟨hconsecutive, hlow, hdlc, hbytes⟩ := isConsecutive_onWire hframe
    obtain ⟨result, r₃, hcall, hcases⟩ := mainFunction_consecutive hholds' (by omega) hconsecutive
      hlow hdlc
    rw [hbytes] at hcases
    have hshort := Framing.gathered_short hlong hn
    rcases hcases with ⟨rfl, hholds''⟩ | ⟨-, hdone, -⟩
    · have hlast : run [some frame] r₂ = some ([false], r₃) := run_cons hcall rfl
      refine ⟨ff, r₃, ?_, hannounced, hholds''⟩
      rw [run_append hrun (run_append hrun' hlast)]
      exact congrArg some (congrArg (·, r₃) ((congrArg _ (replicate_append_false others
        [some frame])).trans (replicate_append_false polls' _)))
    · rw [hannounced] at hdone
      exact absurd hdone (Nat.not_le.2 hshort)

/-- The last frame delivers the request, and nothing is delivered after it. -/
theorem run_request {limit : Nat} {polls after : List (Option Frame)} {last : Frame}
    (hlimit : limit < timeoutLoops.toNat)
    (hlength : 1 ≤ message.length ∧ message.length ≤ maxPduLength)
    (h : Carries limit (segments message) (polls ++ [some last]))
    (hafter : ∀ poll ∈ after, Other poll) :
    ∃ r', run (polls ++ some last :: after) r = some (List.replicate polls.length false ++
        true :: List.replicate after.length false, r') ∧ r'.request.payload = message := by
  -- it is enough that the call with the last frame delivers it
  have hdelivers : ∀ r₁ r₂, run polls r = some (List.replicate polls.length false, r₁) →
      mainFunction (some last) r₁ = some (true, r₂) → r₂.request.payload = message →
      ∃ r', run (polls ++ some last :: after) r = some (List.replicate polls.length false ++
        true :: List.replicate after.length false, r') ∧ r'.request.payload = message := by
    intro r₁ r₂ hrun hcall hpayload
    obtain ⟨r₃, hrest, hrequest⟩ := @run_other r₂ after hafter
    exact ⟨r₃, run_append hrun (run_cons hcall hrest), by rw [hrequest]; exact hpayload⟩
  by_cases hshort : message.length ≤ 7
  · have hsegments : segments message = [single message] := by
      unfold segments
      exact if_pos hshort
    rw [hsegments] at h
    obtain ⟨others, frame, hpolls, hothers, hframe⟩ := h.single
    obtain ⟨rfl, hlast⟩ := List.append_inj' hpolls rfl
    cases hlast
    obtain ⟨hsingle, hbytes⟩ := isSingle_onWire ⟨hlength.1, hshort⟩ hframe
    obtain ⟨r₁, hrun, -⟩ := @run_other r polls hothers
    obtain ⟨r₂, hcall, hpayload⟩ := @mainFunction_single _ r₁ hsingle
    exact hdelivers r₁ r₂ hrun hcall (hpayload.trans hbytes)
  · have hlong : 7 < message.length := Nat.lt_of_not_le hshort
    obtain ⟨k, hk⟩ : ∃ k, count message = k + 1 := ⟨count message - 1, by unfold count; omega⟩
    rw [← Framing.take_segments hlong, hk, Framing.take_succ_segments hlong (by omega)] at h
    have hframes : (segments message).take (k + 1) ≠ [] := by
      rw [Framing.segments_long hlong]
      exact List.cons_ne_nil _ _
    obtain ⟨before, others, frame, hpolls, hbefore, hothers, hfew, hframe⟩ := h.last hframes
    rw [← List.append_assoc] at hpolls
    obtain ⟨rfl, hlast⟩ := List.append_inj' hpolls rfl
    cases hlast
    obtain ⟨ff, r₁, hrun, hannounced, hholds⟩ := @run_carries message r k limit before hlimit hlong
      hlength.2 (by omega) hbefore
    obtain ⟨r₂, hrun', hholds'⟩ := holds_other hothers hholds (by omega)
    obtain ⟨hconsecutive, hlow, hdlc, hbytes⟩ := isConsecutive_onWire hframe
    obtain ⟨result, r₃, hcall, hcases⟩ := mainFunction_consecutive hholds' (by omega) hconsecutive
      hlow hdlc
    rw [hbytes] at hcases
    have hcomplete : gathered message k ++ (consecutive message (k + 1)).drop 1 =
        gathered message (count message) := by
      rw [hk]
      rfl
    rw [hcomplete] at hcases
    rcases hcases with ⟨-, hholds''⟩ | ⟨rfl, -, hpayload⟩
    · have hlong' := Framing.gathered_long hlong
      have hshort' := hholds''.short
      omega
    · rw [hannounced, Framing.gathered_count hlong] at hpayload
      have hall := run_append hrun hrun'
      rw [replicate_append_false] at hall
      exact hdelivers r₂ r₃ hall hcall hpayload

/-! ## Flow controls -/

theorem answer_first (h : frame.IsFirst) : answer (some frame) = some flowControlFrame := by
  have hheard : ¬ (frame.id ≠ requestId ∨ frame.dlc = 0) := by
    rw [not_or, not_not]
    exact h.heard
  have hallowed := mt (first_refused_iff h.heard h.kind (announced_toNat frame)).1 (not_not.2 h)
  unfold answer
  dsimp only
  rw [if_neg hheard, if_neg (not_not.2 (first_iff.2 h.kind)), if_neg hallowed]

theorem answer_not_first (hkind : frame.kind ≠ 1) : answer (some frame) = none := by
  unfold answer
  dsimp only
  split
  · rfl
  · rw [if_pos (mt first_iff.1 hkind)]

theorem answer_other {poll : Option Frame} (h : Other poll) : answer poll = none := by
  cases poll with
  | none => rfl
  | some frame => exact if_pos (.inl (h frame rfl))

theorem filterMap_others {polls : List (Option Frame)} (h : ∀ poll ∈ polls, Other poll) :
    polls.filterMap answer = [] :=
  List.filterMap_eq_nil_iff.2 fun poll hpoll => answer_other (h poll hpoll)

/-- One flow control is sent for the first frame, and none for a single frame. -/
theorem answers_carries {limit : Nat} {polls : List (Option Frame)} (hlong : 7 < message.length)
    (hmax : message.length ≤ maxPduLength) (hn : n ≤ count message)
    (h : Carries limit ((segments message).take (n + 1)) polls) :
    polls.filterMap answer = [flowControlFrame] := by
  induction n generalizing polls with
  | zero =>
    rw [Framing.take_one_segments hlong] at h
    obtain ⟨others, frame, rfl, hothers, hframe⟩ := h.single
    obtain ⟨hfirst, -⟩ := isFirst_onWire hlong hmax hframe
    rw [List.filterMap_append, filterMap_others hothers]
    exact List.filterMap_cons_some (answer_first hfirst)
  | succ n ih =>
    rw [Framing.take_succ_segments hlong hn] at h
    have hframes : (segments message).take (n + 1) ≠ [] := by
      rw [Framing.segments_long hlong]
      exact List.cons_ne_nil _ _
    obtain ⟨polls', others, frame, rfl, hbefore, hothers, -, hframe⟩ := h.last hframes
    obtain ⟨hconsecutive, -⟩ := isConsecutive_onWire hframe
    have hnone : answer (some frame) = none := by
      apply answer_not_first
      rw [hconsecutive.kind]
      decide
    rw [List.filterMap_append, List.filterMap_append, filterMap_others hothers,
      ih (Nat.le_of_succ_le hn) hbefore, List.filterMap_cons_none hnone]
    rfl

/-- The flow control of the bootloader lets the client send everything at once. -/
theorem clears_flowControlFrame {id : Nat} {data : List Byte}
    (h : OnWire id data flowControlFrame) :
    Gateway.IsoTpClient.firstFlowControl data = .ok (0, 0) := by
  have hlength : data.length = 8 := h.dlc.symm
  match data with
  | [b0, b1, b2, b3, b4, b5, b6, b7] =>
    have h0 : (0x30 : Byte) = b0 := h.data 0 (Nat.succ_pos 7)
    have h1 : (0 : Byte) = b1 := h.data 1 (Nat.succ_lt_succ (Nat.succ_pos 6))
    have h2 : (0 : Byte) = b2 :=
      h.data 2 (Nat.succ_lt_succ (Nat.succ_lt_succ (Nat.succ_pos 5)))
    have hstmin : Gateway.IsoTpClient.decodeStmin 0 = .ok 0 := by decide +kernel
    rw [← h0, ← h1, ← h2, Gateway.IsoTpClient.readsFlowControl_first.accepted _
      ⟨0x30, _, rfl, by decide, by decide⟩, Gateway.IsoTpClient.flowParameters_cons, hstmin]
    rfl

theorem isCts_client (h : OnWire 0x7E0 [0x30, 0, 0, 0, 0, 0, 0, 0] frame) : IsCts frame where
  id := h.id
  dlc := by
    rw [BitVec.le_def, h.dlc]
    decide
  pci := h.data 0 (by decide)
  stmin := h.data 2 (by decide)

/-! ## Both directions -/

open Gateway (IsoTpClient World Io CanFrame Arrives)
open RaiseM (Settles)

/-- A request gets through.  The client sends its segments as soon as the bootloader's flow control
    arrives; the bootloader delivers it once and sends one flow control for a first frame, with fewer
    than `limit` other polls between two frames. -/
structure Requests (limit : Nat) (c : IsoTpClient) (message : List Byte) : Prop where
  sends : ∀ (w : World) (s : Io) (frame : CanFrame) (next : Nat),
    (7 < message.length → Arrives w.received c s.receives frame next ∧
      OnWire frame.canId frame.data flowControlFrame) →
    ∃ res s', Settles (IsoTpClient.sendRequest w c message) s (res, s') ∧
      ((res = .ok () ∧ s'.sent = s.sent ++ (segments message).map fun data => (0x7E0, data)) ∨
        (res = .error c.timedOut ∧ w.Overruns c.responseTimeout))
  delivers : ∀ (r : Receiver) (polls after : List (Option Frame)) (last : Frame),
    Carries limit (segments message) (polls ++ [some last]) → (∀ poll ∈ after, Other poll) →
    ∃ r', run (polls ++ some last :: after) r = some (List.replicate polls.length false ++
      true :: List.replicate after.length false, r') ∧ r'.request.payload = message
  answers : ∀ polls, Carries limit (segments message) polls →
    polls.filterMap answer = if message.length ≤ 7 then [] else [flowControlFrame]

/-- A response gets through.  The bootloader sends its segments in blocks of the sizes that are
    granted; the client, or who reads these frames, has the response in the end; and the flow control
    of the client is one that clears to send. -/
structure Responses (c : IsoTpClient) (message : List Byte) : Prop where
  transmits : ∀ (bus : Bus) (s : Can) (response : Pdu), response.payload = message →
    (∀ i, bus.accepts i = true) → Cleared bus.polls →
    ∃ s' more, transmitPdu bus response s = some (.ok (), s') ∧ s'.events = s.events ++ more ∧
      framesOf more = ((segments message).map fun data => (responseId, data)) ∧
      ∀ before blockSize block after, more = before ++ .granted blockSize :: (block ++ after) →
        blockSize ≠ 0 → (∀ other, Event.granted other ∉ block) → block.length ≤ blockSize.toNat
  reads : Framing.read (segments message) = message
  receives : ∀ (w : World) (s : Io) (timeout : Rat),
    IsoTpClient.ArriveAll w.received c s.receives
      ((segments message).map fun data => (0x7E8, data)) →
    ∃ res s', Settles (IsoTpClient.receiveResponse w c timeout) s (res, s') ∧
      ((res = .ok message ∧ s'.sent = s.sent ++ (if message.length ≤ 7 then []
          else [(0x7E0, [0x30, 0, 0, 0, 0, 0, 0, 0])])) ∨
        (res = .error c.timedOut ∧
          (w.Overruns timeout ∨ w.Overruns c.consecutiveFrameTimeout)))
  clears : ∀ frame, OnWire 0x7E0 [0x30, 0, 0, 0, 0, 0, 0, 0] frame → IsCts frame

theorem Obeys.block {limit : Option Nat} {before block after : List Event} {blockSize : Byte}
    (h : Obeys limit (before ++ .granted blockSize :: (block ++ after))) (hsize : blockSize ≠ 0)
    (hblock : ∀ other, Event.granted other ∉ block) : block.length ≤ blockSize.toNat := by
  obtain ⟨limit', hrest⟩ := h.suffix
  have hobeys : Obeys (credit blockSize) (block ++ after) := by
    match limit' with
    | none => exact hrest
    | some 0 => exact hrest
    | some (_ + 1) => exact hrest
  unfold credit at hobeys
  rw [if_neg hsize] at hobeys
  exact hobeys.length_le hblock

theorem requests {c : IsoTpClient} (hid : c.requestId = 0x7E0)
    (hlength : 1 ≤ message.length ∧ message.length ≤ 256) :
    Requests (timeoutLoops.toNat - 1) c message where
  sends w s frame next hflow := by
    have hlt : message.length ≤ 0xFFF := by omega
    have hsends := @IsoTpClient.settles_sendRequest w c s message frame next hlt fun hlong =>
      ⟨(hflow hlong).1, clears_flowControlFrame (hflow hlong).2⟩
    rw [hid] at hsends
    exact hsends
  delivers r polls after last h hafter := run_request (by decide) hlength h hafter
  answers polls h := by
    by_cases hshort : message.length ≤ 7
    · have hsegments : segments message = [single message] := by
        unfold segments
        exact if_pos hshort
      rw [hsegments] at h
      obtain ⟨others, frame, rfl, hothers, hframe⟩ := h.single
      obtain ⟨hsingle, -⟩ := isSingle_onWire ⟨hlength.1, hshort⟩ hframe
      have hnone : answer (some frame) = none := by
        apply answer_not_first
        rw [hsingle.kind]
        decide
      rw [if_pos hshort, List.filterMap_append, filterMap_others hothers,
        List.filterMap_cons_none hnone]
      rfl
    · rw [if_neg hshort]
      rw [← Framing.take_segments (Nat.lt_of_not_le hshort)] at h
      exact answers_carries (Nat.lt_of_not_le hshort) hlength.2 le_rfl h

theorem responses {c : IsoTpClient} (hid : c.requestId = 0x7E0)
    (hlength : 1 ≤ message.length ∧ message.length ≤ 256) : Responses c message where
  transmits bus s response hpayload haccepts hcleared := by
    have hle : 1 ≤ response.length.toNat ∧ response.length.toNat ≤ maxPduLength := by
      rw [← payload_length, hpayload]
      exact hlength
    obtain ⟨s', more, hrun, hevents, hobeys, hframes⟩ := @transmitPdu_spec bus response s haccepts
      hcleared hle
    rw [hpayload] at hframes
    refine ⟨s', more, hrun, hevents, hframes, fun before blockSize block after hmore hsize hblock => ?_⟩
    rw [hmore] at hobeys
    exact hobeys.block hsize hblock
  reads := Framing.read_segments (by omega)
  receives w s timeout h := by
    have hreceives := @IsoTpClient.settles_receiveResponse w c s timeout message 0x7E8
      ⟨hlength.1, by omega⟩ h
    rw [hid] at hreceives
    exact hreceives
  clears frame h := isCts_client h

end BootIsoTp
