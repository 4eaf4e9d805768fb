import BootloaderV2.Schedule

/-!
# Responses that arrive

What becomes of the responses that `Task_Diag` hands to the transport layer, when the transmit queue
has room, the tester answers and the tasks keep pace with the tick.  A response is taken only by an
idle transmitter; one that is taken is sent to its last frame, unless a reset comes before.
-/

open CanIf (CanFrame)

namespace AppRTOS

open CanTp (DiagPdu nBsTimeoutMs responseFrames)
open Segmentation (segments)

variable {s : System} {e : Event}

/-! ## One response -/

/-- One step of a transmitter that has queued `k` frames of the payload. -/
inductive BusyStep (payload : List Byte) (k : Nat) (s s' : System) : Prop
  | same : s'.canTp.tx = s.canTp.tx → responseFrames s'.queued = responseFrames s.queued →
      BusyStep payload k s s'
  | cleared : s.canTp.tx.state = .waitFc → s'.canTp.tx.state = .sendCf →
      CanTp.Tx.Sends payload k s'.canTp.tx →
      responseFrames s'.queued = responseFrames s.queued → BusyStep payload k s s'
  | sent : CanTp.Tx.Sends payload (k + 1) s'.canTp.tx →
      responseFrames s'.queued =
        responseFrames s.queued ++ [Segmentation.consecutive payload k] → BusyStep payload k s s'
  | finished : k = Segmentation.count payload → s'.canTp.tx.state = .idle → s'.next = .maintaining →
      responseFrames s'.queued =
        responseFrames s.queued ++ [Segmentation.consecutive payload k] → BusyStep payload k s s'

variable {payload : List Byte} {k : Nat}

/-- The critical section sends a frame when it is due, and does nothing when it is not. -/
theorem busyStep_advance (h : CanTp.Tx.Sends payload k s.canTp.tx) {now : Nat}
    (hout : ¬ CanTp.NBsExpired Stamp.value ⟨now, s.time⟩ s.canTp.tx) :
    BusyStep payload k s (advance true now s) ∧
      (CanTp.CfDue Stamp.value ⟨now, s.time⟩ s.canTp.tx →
        ¬ CanTp.Tx.Sends payload k (advance true now s).canTp.tx) := by
  have hqueued : (advance true now s).queued = s.queued ++
      (CanTp.advanceTx true Stamp.value ⟨now, s.time⟩ s.canTp.tx).2 := rfl
  have htx : (advance true now s).canTp.tx =
      (CanTp.advanceTx true Stamp.value ⟨now, s.time⟩ s.canTp.tx).1 := rfl
  have hresponse : responseFrames [Segmentation.consecutive payload k] =
      [Segmentation.consecutive payload k] := CanTp.responseFrames_consecutive payload k
  by_cases hdue : CanTp.CfDue Stamp.value ⟨now, s.time⟩ s.canTp.tx
  · have hadvance : CanTp.advanceTx true Stamp.value ⟨now, s.time⟩ s.canTp.tx =
        (CanTp.afterConsecutiveFrame ⟨now, s.time⟩ s.canTp.tx,
          [Segmentation.consecutive payload k]) := by
      unfold CanTp.advanceTx
      simp only [if_neg hout, if_pos hdue]
      unfold CanTp.sendNextConsecutiveFrame
      dsimp only
      rw [h.consecutiveFrame]
      rfl
    have htx' : (advance true now s).canTp.tx =
        CanTp.afterConsecutiveFrame ⟨now, s.time⟩ s.canTp.tx := by
      rw [htx, hadvance]
    rw [hadvance] at hqueued
    have hframes : responseFrames (advance true now s).queued =
        responseFrames s.queued ++ [Segmentation.consecutive payload k] := by
      rw [hqueued, CanTp.responseFrames_append, hresponse]
    rcases h.afterConsecutiveFrame ⟨now, s.time⟩ with hnext | ⟨hlast, hidle⟩
    · rw [← htx'] at hnext
      refine ⟨.sent hnext hframes, fun _ hsame => ?_⟩
      have hoffset := hsame.offset
      rw [hnext.offset] at hoffset
      have hpos := h.pos
      omega
    · rw [← htx'] at hidle
      exact ⟨.finished hlast hidle rfl hframes, fun _ hsame => hsame.busy hidle⟩
  · have hadvance : CanTp.advanceTx true Stamp.value ⟨now, s.time⟩ s.canTp.tx =
        (s.canTp.tx, []) := by
      unfold CanTp.advanceTx
      simp only [if_neg hout, if_neg hdue]
    rw [hadvance] at hqueued htx
    refine ⟨.same htx ?_, fun hdue' => absurd hdue' hdue⟩
    rw [hqueued, List.append_nil]

theorem busyStep_of_moves {s' : System} {o : Option DiagPdu}
    (h : CanTp.Tx.Sends payload k s.canTp.tx) (hmoves : Moves s s' o)
    (hout : ∀ now, s.next = .advancing now →
      ¬ CanTp.NBsExpired Stamp.value ⟨now, s.time⟩ s.canTp.tx) : BusyStep payload k s s' := by
  cases hmoves with
  | stays htx hframes => exact .same htx hframes
  | cleared hwait htx hsend hframes =>
    refine .cleared hwait hsend ?_ hframes
    rcases h.handleFlowControl (Stamp.at s.time) _ with hsends | ⟨hidle, -⟩
    · rw [htx]
      exact hsends
    · rw [← htx, hsend] at hidle
      cases hidle
  | hands hnext =>
    -- a busy transmitter refuses
    rename_i response
    have hrefused := transmit_of_busy h.busy response
    refine .same ?_ ?_
    · show (CanTp.transmit true (Stamp.at s.time) response s.canTp).2.1.tx = _
      rw [hrefused]
    · show responseFrames (s.queued ++
        (CanTp.transmit true (Stamp.at s.time) response s.canTp).2.2) = _
      rw [hrefused, List.append_nil]
  | advances hnext => exact (busyStep_advance h (hout _ hnext)).1

/-! ## All responses -/

/-- The frames that were queued are those of the responses that were taken, the last one perhaps not
    to its end. -/
inductive Delivered (answers : List DiagPdu) (s : System) : Prop
  | idle : s.canTp.tx.state = .idle → responseFrames s.queued = framesOf answers →
      Delivered answers s
  | busy {earlier : List DiagPdu} {current : DiagPdu} {k : Nat} : answers = earlier ++ [current] →
      7 < current.payload.length → CanTp.Tx.Sends current.payload k s.canTp.tx →
      responseFrames s.queued = framesOf earlier ++ (segments current.payload).take k →
      Delivered answers s

variable {answers : List DiagPdu}

theorem Delivered.ordered (h : Delivered answers s) :
    responseFrames s.queued <+: framesOf answers := by
  cases h with
  | idle _ hframes =>
    rw [hframes]
  | busy hanswers _ _ hframes =>
    rw [hframes, hanswers, framesOf_append, framesOf_singleton]
    exact (List.prefix_append_right_inj _).2 (List.take_prefix _ _)

/-- An idle transmitter takes the response: a single frame at once, otherwise the first one. -/
theorem Delivered.respond (hidle : s.canTp.tx.state = .idle)
    (hframes : responseFrames s.queued = framesOf answers) {response : DiagPdu}
    (hfits : Dcm.Fits response) : Delivered (answers ++ [response]) (respond true response s) := by
  have hlength : ¬ (response.length = 0 ∨ CanTp.diagMaxPduLength < response.length.toNat) := by
    intro hor
    rcases hor with hzero | hlong
    · exact hfits.1 hzero
    · exact absurd hfits.2 (Nat.not_le_of_lt hlong)
  have hmax := hfits.2
  unfold CanTp.diagMaxPduLength at hmax
  by_cases hsingle : response.length.toNat ≤ CanTp.sfMaxPayload
  · have htransmit : CanTp.transmit true (Stamp.at s.time) response s.canTp =
        (true, s.canTp, [CanTp.singleFrame response]) := by
      unfold CanTp.transmit
      rw [if_neg hlength, if_neg (fun hne => hne hidle), if_pos hsingle]
      rfl
    have hpci : CanTp.pciType (CanTp.singleFrame response) ≠ CanTp.pciFc := by
      rw [CanTp.singleFrame_eq hsingle]
      have hdec : ∀ x : Fin 8, BitVec.ofNat 8 x.val &&& CanTp.pciTypeMask ≠ CanTp.pciFc := by decide
      have hlt : response.payload.length < 8 := by
        rw [CanTp.DiagPdu.length_payload]
        exact Nat.lt_succ_of_le hsingle
      exact hdec ⟨response.payload.length, hlt⟩
    refine .idle ?_ ?_
    · show (CanTp.transmit true (Stamp.at s.time) response s.canTp).2.1.tx.state = .idle
      rw [htransmit]
      exact hidle
    · show responseFrames (s.queued ++
        (CanTp.transmit true (Stamp.at s.time) response s.canTp).2.2) = _
      have hresponse : responseFrames [CanTp.singleFrame response] =
          [CanTp.singleFrame response] := CanTp.responseFrames_singleton hpci
      rw [htransmit, CanTp.responseFrames_append, hframes, hresponse, framesOf_append,
        framesOf_singleton]
      unfold Segmentation.segments
      rw [if_pos (by rw [CanTp.DiagPdu.length_payload]; exact hsingle),
        CanTp.singleFrame_eq hsingle]
  · have haccepted : (CanTp.transmit true (Stamp.at s.time) response s.canTp).1 = true := by
      unfold CanTp.transmit
      rw [if_neg hlength, if_neg (fun hne => hne hidle), if_neg hsingle]
    have hlength' : 7 < response.length.toNat := Nat.lt_of_not_le hsingle
    obtain ⟨hsends, hfirst⟩ := CanTp.sends_of_transmit hlength' haccepted
    have hlong : 7 < response.payload.length := by
      rw [CanTp.DiagPdu.length_payload]
      exact hlength'
    refine .busy rfl hlong hsends ?_
    have hpci : CanTp.pciType (Segmentation.first response.payload) ≠ CanTp.pciFc := by
      rw [CanTp.pciType_first (by rw [CanTp.DiagPdu.length_payload]; omega)]
      decide
    have hresponse : responseFrames [Segmentation.first response.payload] =
        [Segmentation.first response.payload] := CanTp.responseFrames_singleton hpci
    show responseFrames (s.queued ++
      (CanTp.transmit true (Stamp.at s.time) response s.canTp).2.2) = _
    rw [hfirst, CanTp.responseFrames_append, hframes, hresponse,
      Segmentation.take_one_segments hlong]

theorem Delivered.busyStep {earlier : List DiagPdu} {current : DiagPdu} {s' : System}
    (hlong : 7 < current.payload.length) (h : CanTp.Tx.Sends current.payload k s.canTp.tx)
    (hframes : responseFrames s.queued = framesOf earlier ++ (segments current.payload).take k)
    (hstep : BusyStep current.payload k s s') : Delivered (earlier ++ [current]) s' := by
  have hnext := Segmentation.take_succ_segments hlong h.pos h.more
  cases hstep with
  | same htx hsame => exact .busy rfl hlong (by rw [htx]; exact h) (hsame.trans hframes)
  | cleared _ _ hsends hsame => exact .busy rfl hlong hsends (hsame.trans hframes)
  | sent hsends hmore =>
    refine .busy rfl hlong hsends ?_
    rw [hmore, hframes, List.append_assoc, hnext]
  | finished hlast hidle _ hmore =>
    refine .idle hidle ?_
    rw [hmore, hframes, List.append_assoc, ← hnext, framesOf_append, framesOf_singleton,
      Segmentation.take_segments_of_count_lt hlong (by omega)]

theorem Delivered.of_moves {s' : System} {o : Option DiagPdu} (h : Delivered answers s)
    (hproper : Proper s) (hmoves : Moves s s' o)
    (hout : ∀ now, s.next = .advancing now →
      ¬ CanTp.NBsExpired Stamp.value ⟨now, s.time⟩ s.canTp.tx) :
    Delivered (answers ++ if s.canTp.tx.state = .idle then o.toList else []) s' := by
  cases h with
  | busy hanswers hlong hsends hframes =>
    rw [if_neg hsends.busy, List.append_nil, hanswers]
    exact Delivered.busyStep hlong hsends hframes (busyStep_of_moves hsends hmoves hout)
  | idle hidle hframes =>
    rw [if_pos hidle]
    cases hmoves with
    | stays htx hsame =>
      rw [Option.toList_none, List.append_nil]
      exact .idle (by rw [htx]; exact hidle) (hsame.trans hframes)
    | cleared hwait _ _ _ =>
      rw [hidle] at hwait
      cases hwait
    | hands hnext =>
      rw [Option.toList_some]
      exact Delivered.respond hidle hframes (hproper.fits _ hnext)
    | advances hnext =>
      rw [Option.toList_none, List.append_nil]
      rename_i now
      have hadvance : CanTp.advanceTx true Stamp.value ⟨now, s.time⟩ s.canTp.tx =
          (s.canTp.tx, []) := by
        unfold CanTp.advanceTx
        have hdue : ¬ CanTp.CfDue Stamp.value ⟨now, s.time⟩ s.canTp.tx := by
          intro hdue
          have hsend := hdue.1
          rw [hidle] at hsend
          cases hsend
        simp only [if_neg (hout now hnext), if_neg hdue]
      refine .idle ?_ ?_
      · show (CanTp.advanceTx true Stamp.value ⟨now, s.time⟩ s.canTp.tx).1.state = .idle
        rw [hadvance]
        exact hidle
      · show responseFrames (s.queued ++
          (CanTp.advanceTx true Stamp.value ⟨now, s.time⟩ s.canTp.tx).2) = _
        rw [hadvance, List.append_nil, hframes]

/-! ## Fair runs -/

/-- What was made is what was handed over and what is in hand. -/
theorem responses_step (e : Event) {before : List DiagPdu}
    (h : s.responses = before ++ s.next.response.toList) :
    (step e s).responses =
      before ++ (handover e s).toList ++ (step e s).next.response.toList := by
  rcases step_cases e s with ⟨hhalted, heq⟩ | ⟨-, heq⟩
  · rw [heq, handover_of_halted hhalted, Option.toList_none, List.append_nil, h]
  rw [heq]
  cases e with
  | tick | receive accept frame | confirm =>
    show s.responses = before ++ [] ++ s.next.response.toList
    rw [List.append_nil, h]
  | transmit ready =>
    show (transmit ready s).responses = before ++ [] ++ (transmit ready s).next.response.toList
    unfold transmit
    rw [List.append_nil]
    split
    · exact h
    · exact h
  | diag accept readings =>
    show (diag accept readings s).responses =
      before ++ s.next.response.toList ++ (diag accept readings s).next.response.toList
    rw [← h]
    unfold diag
    split
    · split
      · exact (List.append_nil _).symm
      · exact (List.append_nil _).symm
    · split
      · rfl
      · exact (List.append_nil _).symm
    · exact (List.append_nil _).symm
    · exact (List.append_nil _).symm
    · exact (List.append_nil _).symm
    · exact (List.append_nil _).symm
    · split
      · exact (List.append_nil _).symm
      · exact (List.append_nil _).symm
    · rename_i hnext
      rw [hnext]
      exact (List.append_nil _).symm

section Fair

variable {pace : Nat} {events : Nat → Event} {time : Nat} {dcm : Dcm.State} {n : Nat}

theorem running_of_advancing {s : System} {now : Nat} (h : s.next = .advancing now) :
    s.halted = false := by
  unfold System.halted
  rw [h]

/-- What is not halted was not halted before. -/
theorem running_of_le {s : System} {m n : Nat} (h : (trace events s n).halted = false)
    (hle : m ≤ n) : (trace events s m).halted = false := by
  cases hhalted : (trace events s m).halted with
  | false => rfl
  | true =>
    rw [trace_of_halted hhalted hle, hhalted] at h
    cases h

/-- A clearance to send gets through to a transmitter that waits. -/
theorem sendCf_of_clears {s : System} (hclears : ClearsToSend (events n))
    (hrunning : (trace events s n).halted = false)
    (hwait : (trace events s n).canTp.tx.state = .waitFc) :
    (trace events s (n + 1)).canTp.tx.state = .sendCf := by
  obtain ⟨accept, frame, hevent, hfc⟩ := hclears
  show (step (events n) (trace events s n)).canTp.tx.state = .sendCf
  rw [step_of_running hrunning, hevent]
  exact congrArg (·.state) (CanTp.rxIndication_of_clearance hfc hwait accept _)

theorem responses_trace (n : Nat) : (trace events (start time dcm) n).responses =
    handed events (start time dcm) n ++
      (trace events (start time dcm) n).next.response.toList := by
  induction n with
  | zero => rfl
  | succ n ih => exact responses_step (events n) ih

theorem Fair.proper (h : Fair pace events (start time dcm)) (n : Nat) :
    Proper (trace events (start time dcm) n) := by
  induction n with
  | zero => exact proper_start time dcm
  | succ n ih => exact ih.step (h.clears n)

theorem Fair.moves (h : Fair pace events (start time dcm)) (n : Nat) :
    Moves (trace events (start time dcm) n) (trace events (start time dcm) (n + 1))
      (handover (events n) (trace events (start time dcm) n)) :=
  moves_step (h.accepts n) (h.clears n)

/-- A tick that was read is used within the pace. -/
theorem Fair.prompt (h : Fair pace events (start time dcm)) {now : Nat}
    (hnext : (trace events (start time dcm) n).next = .advancing now) :
    (trace events (start time dcm) n).time ≤ now + pace := by
  obtain ⟨j, hj, htime, hnone⟩ := sampled_at rfl n hnext
  obtain ⟨m, hm, hpace, hturn⟩ := h.turns (j + 1)
  rw [htime] at hpace
  -- the task comes to the next critical section only through this one
  have hle : n ≤ m := by
    by_contra hlt
    have hrunning := running_of_le (running_of_advancing hnext) (by omega : m ≤ n)
    rcases hturn with hhalted | ⟨_, ⟨⟨accept, readings, hevent⟩, -⟩, -⟩
    · rw [hrunning] at hhalted
      cases hhalted
    · exact hnone m (by omega) (by omega) accept readings hevent
  exact (time_mono _ _ hle).trans hpace

/-- From step `j` on the transmitter waits for a flow control. -/
structure Waiting (events : Nat → Event) (s : System) (j n : Nat) : Prop where
  lt : j < n
  asks : Asks (trace events s j) (trace events s (j + 1))
  waits : ∀ k, j < k → k ≤ n → (trace events s k).canTp.tx.state = .waitFc

theorem exists_waiting : ∀ {n : Nat}, (trace events (start time dcm) n).canTp.tx.state = .waitFc →
    ∃ j, Waiting events (start time dcm) j n := by
  intro n
  induction n with
  | zero => exact fun hwait => CanTp.TxState.noConfusion hwait
  | succ n ih =>
    intro hwait
    by_cases hbefore : (trace events (start time dcm) n).canTp.tx.state = .waitFc
    · obtain ⟨j, hj⟩ := ih hbefore
      refine ⟨j, Nat.lt_succ_of_lt hj.lt, hj.asks, fun k hlt hle => ?_⟩
      by_cases hk : k ≤ n
      · exact hj.waits k hlt hk
      · obtain rfl : k = n + 1 := by omega
        exact hwait
    · refine ⟨n, Nat.lt_succ_self n, ⟨hbefore, hwait⟩, fun k hlt hle => ?_⟩
      obtain rfl : k = n + 1 := by omega
      exact hwait

/-- The tick that it waits since is hardly older than the moment. -/
theorem Fair.activity (h : Fair pace events (start time dcm)) {j : Nat}
    (hwait : Waiting events (start time dcm) j n) : (trace events (start time dcm) j).time ≤
      (trace events (start time dcm) n).canTp.tx.lastActivityTick.tick + pace := by
  obtain ⟨hlt, ⟨hbefore, hafter⟩, hwaits⟩ := hwait
  induction n, hlt using Nat.le_induction with
  | base =>
    rcases (h.moves j).asks ⟨hbefore, hafter⟩ with htick | ⟨now, hnext, htick⟩
    · rw [htick]
      exact Nat.le_add_right _ _
    · rw [htick]
      exact h.prompt hnext
  | succ n hle ih =>
    have hstill := hwaits n (by omega) (Nat.le_succ n)
    have hnext := hwaits (n + 1) (by omega) le_rfl
    have hbound := ih fun k hlt hk => hwaits k hlt (Nat.le_succ_of_le hk)
    rw [(h.moves n).waits hstill hnext]
    exact hbound

/-- A tester that answers in time is not given up. -/
theorem Fair.not_expired (h : Fair pace events (start time dcm)) (n : Nat) (now : Nat)
    (hnext : (trace events (start time dcm) n).next = .advancing now) :
    ¬ CanTp.NBsExpired Stamp.value ⟨now, (trace events (start time dcm) n).time⟩
      (trace events (start time dcm) n).canTp.tx := by
  intro hout
  obtain ⟨hwait, hle⟩ := hout
  obtain ⟨j, hj⟩ := exists_waiting hwait
  obtain ⟨m, hm, htimely, hanswer⟩ := h.answers j hj.asks
  have hmore : n ≤ m := by
    by_contra hlt
    have hrunning := running_of_le (running_of_advancing hnext) (by omega : m ≤ n)
    rcases hanswer with hhalted | hclears
    · rw [hrunning] at hhalted
      cases hhalted
    · have hsend := sendCf_of_clears hclears hrunning (hj.waits m hm (by omega))
      rw [hj.waits (m + 1) (by omega) (by omega)] at hsend
      cases hsend
  have hsince := h.activity hj
  have hbefore := (h.proper n).waits hwait now hnext
  have helapsed := hle.trans (elapsed_of_le hbefore)
  have hnow := (h.proper n).clocked.sampled now hnext
  have htime := time_mono events (start time dcm) hmore
  omega

/-- What is taken is delivered. -/
theorem Fair.delivered (h : Fair pace events (start time dcm)) (n : Nat) :
    Delivered (taken events (start time dcm) n) (trace events (start time dcm) n) := by
  induction n with
  | zero => exact .idle rfl rfl
  | succ n ih => exact ih.of_moves (h.proper n) (h.moves n) (h.not_expired n)

theorem Fair.busyStep (h : Fair pace events (start time dcm))
    (hsends : CanTp.Tx.Sends payload k (trace events (start time dcm) n).canTp.tx) :
    BusyStep payload k (trace events (start time dcm) n) (trace events (start time dcm) (n + 1)) :=
  busyStep_of_moves hsends (h.moves n) (h.not_expired n)

/-! ## Runs without a reset -/

/-- The tick goes on by one at a time. -/
theorem time_between {s : System} {m : Nat} (hle : n ≤ m)
    (hlt : (trace events s n).time < (trace events s m).time) :
    ∃ k, n ≤ k ∧ (trace events s k).time = (trace events s n).time + 1 := by
  induction m, hle using Nat.le_induction with
  | base => exact absurd hlt (Nat.lt_irrefl _)
  | succ m hm ih =>
    by_cases hbefore : (trace events s n).time < (trace events s m).time
    · exact ih hbefore
    · refine ⟨m + 1, by omega, ?_⟩
      have hmono := time_mono events s hm
      have hstep : (trace events s (m + 1)).time = (trace events s m).time ∨
        (trace events s (m + 1)).time = (trace events s m).time + 1 := time_step _ _
      omega

/-- Whatever the tick of the last frame shows, there are ticks with which the next one is due. -/
theorem cfDue_of_le {tx : CanTp.Tx Stamp} {q now time : Nat} (hsend : tx.state = .sendCf)
    (hlow : tx.lastCfTick.tick + 2 ^ 32 * q + 255 ≤ now)
    (hhigh : now ≤ tx.lastCfTick.tick + 2 ^ 32 * q + 255 + nBsTimeoutMs) :
    CanTp.CfDue Stamp.value ⟨now, time⟩ tx := by
  refine ⟨hsend, ?_⟩
  have hbyte := tx.stminMs.isLt
  show _ ≤ (BitVec.ofNat 32 now - BitVec.ofNat 32 tx.lastCfTick.tick).toNat
  unfold nBsTimeoutMs at hhigh
  rw [toNat_ofNat_sub]
  omega

section Live

variable (h : Fair pace events (start time dcm))
  (hlive : ∀ m, (trace events (start time dcm) m).halted = false)

include h hlive

theorem Fair.reaches {moment : Nat} (hle : (trace events (start time dcm) n).time ≤ moment) :
    ∃ m, n ≤ m ∧ (trace events (start time dcm) m).time = moment := by
  induction moment, hle using Nat.le_induction with
  | base => exact ⟨n, le_rfl, rfl⟩
  | succ moment _ ih =>
    obtain ⟨m, hm, rfl⟩ := ih
    obtain ⟨m', hm', hhalted | hlater⟩ := h.ticks m
    · rw [hlive m'] at hhalted
      cases hhalted
    · obtain ⟨k, hk, htime⟩ := time_between hm' hlater
      exact ⟨k, hm.trans hk, htime⟩

/-- Soon after every moment the critical section is entered with a tick that is not older. -/
theorem Fair.enters {moment : Nat} (hle : (trace events (start time dcm) n).time ≤ moment) :
    ∃ m now, n ≤ m ∧ Enters (events m) (trace events (start time dcm) m) now ∧ moment ≤ now ∧
      now ≤ moment + pace := by
  obtain ⟨m, hm, rfl⟩ := h.reaches hlive hle
  obtain ⟨m', hm', htime, hhalted | ⟨now, henters, hnow⟩⟩ := h.turns m
  · rw [hlive m'] at hhalted
    cases hhalted
  · have hsampled := (h.proper m').clocked.sampled now henters.2
    exact ⟨m', now, hm.trans hm', henters, hnow, hsampled.trans htime⟩

/-- A transmitter does not wait for ever. -/
theorem Fair.sending (hbusy : ∀ m, n ≤ m → (trace events (start time dcm) m).canTp.tx.state ≠ .idle) :
    ∃ m, n ≤ m ∧ (trace events (start time dcm) m).canTp.tx.state = .sendCf := by
  by_contra hno
  push Not at hno
  have hwait : ∀ m, n ≤ m → (trace events (start time dcm) m).canTp.tx.state = .waitFc := by
    intro m hm
    cases hstate : (trace events (start time dcm) m).canTp.tx.state with
    | idle => exact absurd hstate (hbusy m hm)
    | waitFc => rfl
    | sendCf => exact absurd hstate (hno m hm)
  obtain ⟨j, hj⟩ := exists_waiting (hwait n le_rfl)
  obtain ⟨m, hm, -, hhalted | hclears⟩ := h.answers j hj.asks
  · rw [hlive m] at hhalted
    cases hhalted
  · have hwaits : ∀ k, j < k → (trace events (start time dcm) k).canTp.tx.state = .waitFc := by
      intro k hk
      by_cases hle : k ≤ n
      · exact hj.waits k hk hle
      · exact hwait k (by omega)
    have hsend := sendCf_of_clears hclears (hlive m) (hwaits m hm)
    rw [hwaits (m + 1) (by omega)] at hsend
    cases hsend

/-- A busy transmitter does not stay with the same frame for ever. -/
theorem Fair.not_stuck :
    ¬ ∀ m, n ≤ m → CanTp.Tx.Sends payload k (trace events (start time dcm) m).canTp.tx := by
  intro hstuck
  obtain ⟨m, hm, hsend⟩ := h.sending hlive fun m hm => (hstuck m hm).busy
  -- once it may send, nothing changes until the separation time is over
  have hsame : ∀ j, m ≤ j → (trace events (start time dcm) j).canTp.tx =
      (trace events (start time dcm) m).canTp.tx := by
    intro j hj
    induction j, hj using Nat.le_induction with
    | base => rfl
    | succ j hj ih =>
      have hnext := hstuck (j + 1) (by omega)
      cases h.busyStep (hstuck j (by omega)) with
      | same htx _ => exact htx.trans ih
      | cleared hwait _ _ _ =>
        rw [ih, hsend] at hwait
        cases hwait
      | sent hsends _ =>
        have hoffset := hnext.offset
        rw [hsends.offset] at hoffset
        have hpos := hnext.pos
        omega
      | finished _ hidle _ _ => exact absurd hidle hnext.busy
  have hmoment : (trace events (start time dcm) m).time ≤
      (trace events (start time dcm) m).canTp.tx.lastCfTick.tick +
        2 ^ 32 * (trace events (start time dcm) m).time + 255 := by omega
  obtain ⟨m', now, hm', ⟨⟨accept, readings, hevent⟩, hnext⟩, hlow, hhigh⟩ :=
    h.enters hlive hmoment
  obtain rfl := h.accepts m' accept readings hevent
  have hstep : trace events (start time dcm) (m' + 1) =
      advance true now (trace events (start time dcm) m') := by
    show step (events m') _ = _
    rw [hevent]
    exact step_diag_advancing hnext true readings
  have hdue : CanTp.CfDue Stamp.value ⟨now, (trace events (start time dcm) m').time⟩
      (trace events (start time dcm) m').canTp.tx := by
    have hbrisk := h.brisk
    rw [hsame m' hm']
    exact cfDue_of_le hsend hlow (by omega)
  have hno := (busyStep_advance (hstuck m' (by omega)) (h.not_expired m' now hnext)).2 hdue
  rw [← hstep] at hno
  exact hno (hstuck (m' + 1) (by omega))

/-- It comes to the next frame, or to the end. -/
theorem Fair.progress
    (hsends : CanTp.Tx.Sends payload k (trace events (start time dcm) n).canTp.tx) :
    ∃ m, n ≤ m ∧ (((trace events (start time dcm) m).canTp.tx.state = .idle ∧
        (trace events (start time dcm) m).next = .maintaining) ∨
      CanTp.Tx.Sends payload (k + 1) (trace events (start time dcm) m).canTp.tx) := by
  by_contra hno
  push Not at hno
  apply h.not_stuck hlive
  intro m hm
  induction m, hm using Nat.le_induction with
  | base => exact hsends
  | succ m hm ih =>
    cases h.busyStep ih with
    | same htx _ =>
      rw [htx]
      exact ih
    | cleared _ _ hs _ => exact hs
    | sent hs _ => exact absurd hs (hno (m + 1) (by omega)).2
    | finished _ hidle hnext _ => exact absurd hnext ((hno (m + 1) (by omega)).1 hidle)

/-- A busy transmitter becomes idle. -/
theorem Fair.becomes_idle : ∀ (rest n k : Nat),
    CanTp.Tx.Sends payload k (trace events (start time dcm) n).canTp.tx →
    Segmentation.count payload = k + rest →
    ∃ m, n ≤ m ∧ (trace events (start time dcm) m).canTp.tx.state = .idle ∧
      (trace events (start time dcm) m).next = .maintaining := by
  intro rest
  induction rest with
  | zero =>
    intro n k hsends hcount
    obtain ⟨m, hm, ⟨hidle, hnext⟩ | hs⟩ := h.progress hlive hsends
    · exact ⟨m, hm, hidle, hnext⟩
    · have hmore := hs.more
      omega
  | succ rest ih =>
    intro n k hsends hcount
    obtain ⟨m, hm, ⟨hidle, hnext⟩ | hs⟩ := h.progress hlive hsends
    · exact ⟨m, hm, hidle, hnext⟩
    · obtain ⟨m', hm', hdone⟩ := ih m (k + 1) hs (by omega)
      exact ⟨m', hm.trans hm', hdone⟩

/-- From a busy transmitter on, there is a moment at which nothing is left to do. -/
theorem Fair.free_of_busy (hbusy : (trace events (start time dcm) n).canTp.tx.state ≠ .idle) :
    ∃ m, n ≤ m ∧ (trace events (start time dcm) m).canTp.tx.state = .idle ∧
      (trace events (start time dcm) m).next.response = none := by
  cases h.delivered n with
  | idle hidle _ => exact absurd hidle hbusy
  | busy _ _ hsends _ =>
    obtain ⟨rest, hrest⟩ := Nat.exists_eq_add_of_le hsends.more
    obtain ⟨m, hm, hidle, hnext⟩ := h.becomes_idle hlive rest n _ hsends hrest
    exact ⟨m, hm, hidle, by rw [hnext]; rfl⟩

/-- From an idle one too, after the next statement of the task. -/
theorem Fair.free_of_idle : ∀ (d n : Nat),
    (∃ accept readings, events (n + d) = .diag accept readings) →
    (trace events (start time dcm) n).canTp.tx.state = .idle →
    ∃ m, n ≤ m ∧ (trace events (start time dcm) m).canTp.tx.state = .idle ∧
      (trace events (start time dcm) m).next.response = none := by
  intro d
  induction d with
  | zero =>
    intro n hdiag hidle
    obtain ⟨accept, readings, hevent⟩ := hdiag
    rw [Nat.add_zero] at hevent
    cases hnext : (trace events (start time dcm) n).next.response with
    | none => exact ⟨n, le_rfl, hidle, hnext⟩
    | some response =>
      -- the response is handed over now
      have hafter : (trace events (start time dcm) (n + 1)).next.response = none := by
        show (step (events n) (trace events (start time dcm) n)).next.response = none
        rw [step_of_running (hlive n), hevent]
        show (diag accept readings (trace events (start time dcm) n)).next.response = none
        unfold diag
        cases hstatement : (trace events (start time dcm) n).next with
        | responding response => rfl
        | _ =>
          rw [hstatement] at hnext
          cases hnext
      by_cases hstill : (trace events (start time dcm) (n + 1)).canTp.tx.state = .idle
      · exact ⟨n + 1, by omega, hstill, hafter⟩
      · obtain ⟨m, hm, hfree⟩ := h.free_of_busy hlive hstill
        exact ⟨m, by omega, hfree⟩
  | succ d ih =>
    intro n hdiag hidle
    have hdiag' : ∃ accept readings, events (n + 1 + d) = .diag accept readings := by
      rw [Nat.add_assoc, Nat.add_comm 1 d]
      exact hdiag
    by_cases hstill : (trace events (start time dcm) (n + 1)).canTp.tx.state = .idle
    · obtain ⟨m, hm, hfree⟩ := ih (n + 1) hdiag' hstill
      exact ⟨m, by omega, hfree⟩
    · obtain ⟨m, hm, hfree⟩ := h.free_of_busy hlive hstill
      exact ⟨m, by omega, hfree⟩

/-- Sooner or later the transmitter is idle and no response is in hand. -/
theorem Fair.becomes_free (n : Nat) :
    ∃ m, n ≤ m ∧ (trace events (start time dcm) m).canTp.tx.state = .idle ∧
      (trace events (start time dcm) m).next.response = none := by
  by_cases hidle : (trace events (start time dcm) n).canTp.tx.state = .idle
  · obtain ⟨m, _, hm, ⟨hdiag, -⟩, -⟩ := h.enters hlive (n := n) le_rfl
    obtain ⟨d, rfl⟩ := Nat.exists_eq_add_of_le hm
    exact h.free_of_idle hlive d n hdiag hidle
  · exact h.free_of_busy hlive hidle

/-- What is queued is sent. -/
theorem Fair.becomes_sent (n : Nat) : ∀ count,
    count ≤ (trace events (start time dcm) n).queued.length →
    ∃ m, n ≤ m ∧ count ≤ (trace events (start time dcm) m).sent := by
  intro count
  induction count with
  | zero => exact fun _ => ⟨n, le_rfl, Nat.zero_le _⟩
  | succ count ih =>
    intro hcount
    obtain ⟨m, hm, hsent⟩ := ih (by omega)
    obtain ⟨m', hm', hhalted | hevent⟩ := h.sends m
    · rw [hlive m'] at hhalted
      cases hhalted
    · have hmono := sent_mono events (start time dcm) hm'
      have hlength := (queued_mono events (start time dcm)
        (hm.trans hm')).length_le
      by_cases hdone : count + 1 ≤ (trace events (start time dcm) m').sent
      · exact ⟨m', hm.trans hm', hdone⟩
      · refine ⟨m' + 1, by omega, ?_⟩
        show _ ≤ (step (events m') (trace events (start time dcm) m')).sent
        rw [step_of_running (hlive m'), hevent]
        show _ ≤ (transmit true (trace events (start time dcm) m')).sent
        unfold transmit
        rw [if_pos ⟨rfl, by omega⟩]
        show _ ≤ _ + 1
        omega

end Live

/-! ## A response that is handed to a busy transmitter -/

/-- The transmitter is idle whenever a response is handed over. -/
def HandedWhenIdle (events : Nat → Event) (s : System) : Prop :=
  ∀ n response, handover (events n) (trace events s n) = some response →
    (trace events s n).canTp.tx.state = .idle

theorem taken_eq_handed (hidle : HandedWhenIdle events s) (n : Nat) :
    taken events s n = handed events s n := by
  induction n with
  | zero => rfl
  | succ n ih =>
    unfold taken handed
    rw [ih]
    cases hhand : handover (events n) (trace events s n) with
    | none => simp
    | some response => rw [if_pos (hidle n response hhand)]

theorem framesOf_length_pos (response : DiagPdu) : 0 < (framesOf [response]).length := by
  rw [framesOf_singleton]
  exact List.length_pos_iff.2 (Segmentation.segments_ne_nil _)

/-- Never more is taken than handed over. -/
theorem taken_length_le (n : Nat) :
    (framesOf (taken events s n)).length ≤ (framesOf (handed events s n)).length := by
  induction n with
  | zero => exact le_rfl
  | succ n ih =>
    unfold taken handed
    rw [framesOf_append, framesOf_append, List.length_append, List.length_append]
    split
    · omega
    · show _ + 0 ≤ _
      omega

/-- And less for ever once a response was handed to a busy transmitter. -/
theorem taken_length_lt {n : Nat} {response : DiagPdu}
    (hhand : handover (events n) (trace events s n) = some response)
    (hbusy : (trace events s n).canTp.tx.state ≠ .idle) (m : Nat) (hm : n + 1 ≤ m) :
    (framesOf (taken events s m)).length < (framesOf (handed events s m)).length := by
  induction m, hm using Nat.le_induction with
  | base =>
    have hle : (framesOf (taken events s n)).length ≤ (framesOf (handed events s n)).length :=
      taken_length_le n
    have hpos := framesOf_length_pos response
    unfold taken handed
    rw [if_neg hbusy, hhand, List.append_nil, framesOf_append, List.length_append,
      Option.toList_some]
    omega
  | succ m hm ih =>
    unfold taken handed
    rw [framesOf_append, framesOf_append, List.length_append, List.length_append]
    split
    · omega
    · show _ + 0 < _
      omega

theorem Fair.lost (h : Fair pace events (start time dcm)) {response : DiagPdu}
    (hhand : handover (events n) (trace events (start time dcm) n) = some response)
    (hbusy : (trace events (start time dcm) n).canTp.tx.state ≠ .idle) :
    ¬ Delivers events (start time dcm) := by
  intro hdelivers
  obtain ⟨m, hm, hcomplete⟩ := hdelivers.complete (n + 1)
  have hlt := taken_length_lt hhand hbusy m hm
  have hle := (h.delivered m).ordered.length_le
  rw [hcomplete, responses_trace, framesOf_append, List.length_append] at hle
  omega

/-! ## The reset -/

/-- The step is that of `AppBootRequest_MainFunction` which stores the record and asks for the reset. -/
def Resets (e : Event) (s : System) : Prop :=
  (∃ accept readings, e = .diag accept readings) ∧ (∃ now, s.next = .delaying now) ∧
    s.dcm.bootRequest.pendingMagic ≠ 0 ∧ AppBootRequest.appBootResetDelayMs ≤
      (BitVec.ofNat 32 s.time - s.dcm.bootRequest.resetTick).toNat

/-- Whenever the reset is asked for, no response is on its way. -/
def ResetWhenSent (events : Nat → Event) (s : System) : Prop :=
  ∀ n, Resets (events n) (trace events s n) → (trace events s n).canTp.tx.state = .idle ∧
    responseFrames ((trace events s n).queued.drop (trace events s n).sent) = []

/-- The step that asks for it, seen from outside. -/
theorem step_of_resets {e : Event} {s : System} (h : Resets e s) :
    ∃ record, step e s = { s with next := .resetting record } := by
  obtain ⟨⟨accept, readings, rfl⟩, ⟨now, hnext⟩, hmagic, hdelay⟩ := h
  have hrunning : s.halted = false := by
    unfold System.halted
    rw [hnext]
  have hdue : ¬ (s.dcm.bootRequest.pendingMagic = 0 ∨
      (BitVec.ofNat 32 s.time - s.dcm.bootRequest.resetTick).toNat <
        AppBootRequest.appBootResetDelayMs) := by
    rintro (hzero | hearly)
    · exact hmagic hzero
    · omega
  rw [step_of_running hrunning]
  show ∃ record, diag accept readings s = _
  unfold diag Dcm.mainFunction AppBootRequest.mainFunction
  rw [hnext]
  simp only [if_neg hdue]
  exact ⟨_, rfl⟩

/-- Nothing else does. -/
theorem resets_of_halted {e : Event} {s : System} (hrunning : s.halted = false)
    (hhalted : (step e s).halted = true) : Resets e s := by
  rw [step_of_running hrunning] at hhalted
  by_cases hdiag : ∃ accept readings, e = .diag accept readings
  · obtain ⟨accept, readings, rfl⟩ := hdiag
    change (diag accept readings s).halted = true at hhalted
    unfold diag at hhalted
    cases hnext : s.next with
    | delaying now =>
      rw [hnext] at hhalted
      dsimp only at hhalted
      refine ⟨⟨accept, readings, rfl⟩, ⟨now, hnext⟩, ?_⟩
      by_contra hno
      have hdue : s.dcm.bootRequest.pendingMagic = 0 ∨
          (BitVec.ofNat 32 s.time - s.dcm.bootRequest.resetTick).toNat <
            AppBootRequest.appBootResetDelayMs := by
        by_contra hor
        push Not at hor
        exact hno hor
      have hgoes : ∀ now', Dcm.mainFunction now' (BitVec.ofNat 32 s.time) readings.runningSlot
          s.dcm = .ok (Dcm.superviseS3 now' s.dcm) := by
        intro now'
        unfold Dcm.mainFunction AppBootRequest.mainFunction
        rw [if_pos hdue]
      rw [hgoes] at hhalted
      cases hhalted
    | resetting record =>
      unfold System.halted at hrunning
      rw [hnext] at hrunning
      cases hrunning
    | reading | processing request =>
      rw [hnext] at hhalted
      dsimp only at hhalted
      split at hhalted <;> cases hhalted
    | responding response | sampling | advancing now | maintaining =>
      rw [hnext] at hhalted
      cases hhalted
  · push Not at hdiag
    unfold System.halted at hhalted hrunning
    rw [next_act s hdiag, hrunning] at hhalted
    cases hhalted

/-- A run that is reset was running until the reset. -/
theorem exists_reset (hhalted : (trace events (start time dcm) n).halted = true) :
    ∃ j, j < n ∧ Resets (events j) (trace events (start time dcm) j) := by
  induction n with
  | zero => cases hhalted
  | succ n ih =>
    cases hbefore : (trace events (start time dcm) n).halted with
    | true =>
      obtain ⟨j, hj, hresets⟩ := ih hbefore
      exact ⟨j, Nat.lt_succ_of_lt hj, hresets⟩
    | false => exact ⟨n, Nat.lt_succ_self n, resets_of_halted hbefore hhalted⟩

/-- From the step after the reset on, everything is as it was before. -/
theorem trace_of_resets {s : System} {j m : Nat} (h : Resets (events j) (trace events s j))
    (hm : j < m) : ∃ record, trace events s m = { trace events s j with next := .resetting record } := by
  obtain ⟨record, hstep⟩ := step_of_resets h
  have hnext : trace events s (j + 1) = { trace events s j with next := .resetting record } := hstep
  have hhalted : (trace events s (j + 1)).halted = true := by
    rw [hnext]
    rfl
  exact ⟨record, (trace_of_halted hhalted hm).trans hnext⟩

theorem sentFrames_prefix (s : System) :
    responseFrames s.sentFrames ++ responseFrames (s.queued.drop s.sent) = responseFrames s.queued := by
  rw [← CanTp.responseFrames_append]
  unfold System.sentFrames
  rw [List.take_append_drop]

theorem responseFrames_mono (events : Nat → Event) (s : System) {m : Nat} (hm : n ≤ m) :
    responseFrames (trace events s n).queued <+: responseFrames (trace events s m).queued := by
  obtain ⟨more, hmore⟩ := queued_mono events s hm
  rw [← hmore, CanTp.responseFrames_append]
  exact List.prefix_append _ _

/-- A busy transmitter has not queued all that was handed over. -/
theorem Delivered.lt_of_busy {answers : List DiagPdu} {s : System} (h : Delivered answers s)
    (hbusy : s.canTp.tx.state ≠ .idle) :
    (responseFrames s.queued).length < (framesOf answers).length := by
  cases h with
  | idle hidle _ => exact absurd hidle hbusy
  | busy hanswers hlong hsends hframes =>
    rename_i earlier current k
    have hlength := Segmentation.take_succ_segments hlong hsends.pos hsends.more
    have hmore := congrArg List.length hlength
    rw [List.length_append, List.length_singleton] at hmore
    rw [hframes, hanswers, framesOf_append, framesOf_singleton, List.length_append,
      List.length_append]
    have htake : ((segments current.payload).take (k + 1)).length ≤
        (segments current.payload).length := List.length_take_le' _ _
    omega

/-- A response that is on its way when the reset is asked for is lost. -/
theorem Fair.cut_off (h : Fair pace events (start time dcm))
    (hresets : Resets (events n) (trace events (start time dcm) n))
    (hdelivers : Delivers events (start time dcm)) :
    (trace events (start time dcm) n).canTp.tx.state = .idle ∧
      responseFrames ((trace events (start time dcm) n).queued.drop
        (trace events (start time dcm) n).sent) = [] := by
  constructor
  · by_contra hbusy
    obtain ⟨m, hm, hcomplete⟩ := hdelivers.complete (n + 1)
    obtain ⟨record, hend⟩ := trace_of_resets hresets hm
    have hlt := (h.delivered n).lt_of_busy hbusy
    have hle : (framesOf (taken events (start time dcm) n)).length ≤
        (framesOf (handed events (start time dcm) n)).length := taken_length_le n
    rw [hend] at hcomplete
    have hall : responseFrames (trace events (start time dcm) n).queued =
      framesOf (trace events (start time dcm) n).responses := hcomplete
    rw [hall, responses_trace, framesOf_append, List.length_append] at hlt
    omega
  · obtain ⟨m, hm, hsent⟩ := hdelivers.sent (n + 1)
    obtain ⟨record, hend⟩ := trace_of_resets hresets hm
    obtain ⟨record', hnext⟩ := trace_of_resets hresets (Nat.lt_succ_self n)
    rw [hend, hnext] at hsent
    have hle : (responseFrames (trace events (start time dcm) n).queued).length ≤
      (responseFrames (trace events (start time dcm) n).sentFrames).length := hsent.length_le
    rw [← sentFrames_prefix, List.length_append] at hle
    exact List.eq_nil_of_length_eq_zero (by omega)

/-- Without a reset each response is sent that was handed to an idle transmitter. -/
theorem Fair.delivers_of_running (h : Fair pace events (start time dcm))
    (hlive : ∀ m, (trace events (start time dcm) m).halted = false)
    (hidle : HandedWhenIdle events (start time dcm)) (n : Nat) :
    (∃ m, n ≤ m ∧ responseFrames (trace events (start time dcm) m).queued =
      framesOf (trace events (start time dcm) m).responses) ∧
    ∃ m, n ≤ m ∧ responseFrames (trace events (start time dcm) n).queued <+:
      responseFrames (trace events (start time dcm) m).sentFrames := by
  constructor
  · obtain ⟨m, hm, hfree, hnone⟩ := h.becomes_free hlive n
    refine ⟨m, hm, ?_⟩
    rw [responses_trace, hnone, Option.toList_none, List.append_nil, ← taken_eq_handed hidle]
    cases h.delivered m with
    | idle _ hframes => exact hframes
    | busy _ _ hsends _ => exact absurd hfree hsends.busy
  · obtain ⟨m, hm, hsent⟩ := h.becomes_sent hlive n _ le_rfl
    refine ⟨m, hm, ?_⟩
    obtain ⟨more, hmore⟩ := queued_mono events (start time dcm) hm
    unfold System.sentFrames
    rw [← hmore, List.take_append, List.take_of_length_le hsent, CanTp.responseFrames_append]
    exact List.prefix_append _ _

/-- Before a reset that waits for them, too. -/
theorem Fair.delivers_of_reset (h : Fair pace events (start time dcm)) {j : Nat}
    (hresets : Resets (events j) (trace events (start time dcm) j))
    (hidle : HandedWhenIdle events (start time dcm))
    (hsent : ResetWhenSent events (start time dcm)) (n : Nat) :
    (∃ m, n ≤ m ∧ responseFrames (trace events (start time dcm) m).queued =
      framesOf (trace events (start time dcm) m).responses) ∧
    ∃ m, n ≤ m ∧ responseFrames (trace events (start time dcm) n).queued <+:
      responseFrames (trace events (start time dcm) m).sentFrames := by
  obtain ⟨hfree, hnone⟩ := hsent j hresets
  obtain ⟨record, hend⟩ := trace_of_resets hresets (by omega : j < n + (j + 1))
  have hnext : (trace events (start time dcm) j).next.response = none := by
    obtain ⟨-, ⟨now, hnext⟩, -⟩ := hresets
    rw [hnext]
    rfl
  constructor
  · refine ⟨n + (j + 1), Nat.le_add_right _ _, ?_⟩
    rw [hend]
    show responseFrames (trace events (start time dcm) j).queued =
      framesOf (trace events (start time dcm) j).responses
    rw [responses_trace, hnext, Option.toList_none, List.append_nil, ← taken_eq_handed hidle]
    cases h.delivered j with
    | idle _ hframes => exact hframes
    | busy _ _ hsends _ => exact absurd hfree hsends.busy
  · refine ⟨n + (j + 1), Nat.le_add_right _ _, ?_⟩
    have hmono := responseFrames_mono events (start time dcm)
      (Nat.le_add_right n (j + 1))
    rw [hend] at hmono ⊢
    have hall := sentFrames_prefix (trace events (start time dcm) j)
    rw [hnone, List.append_nil] at hall
    refine hmono.trans ?_
    show responseFrames (trace events (start time dcm) j).queued <+:
      responseFrames (trace events (start time dcm) j).sentFrames
    rw [hall]

/-- With a fair tester and tasks that keep pace, every response arrives if and only if each is handed
    to an idle transmitter, and none is on its way when the reset is asked for. -/
theorem delivers_iff (h : Fair pace events (start time dcm)) : Delivers events (start time dcm) ↔
    HandedWhenIdle events (start time dcm) ∧ ResetWhenSent events (start time dcm) := by
  constructor
  · intro hdelivers
    refine ⟨fun n response hhand => ?_, fun n hresets => h.cut_off hresets hdelivers⟩
    by_contra hbusy
    exact h.lost hhand hbusy hdelivers
  · rintro ⟨hidle, hsent⟩
    have hboth : ∀ n, _ ∧ _ := fun n => by
      by_cases hhalted : ∃ m, (trace events (start time dcm) m).halted = true
      · obtain ⟨m, hm⟩ := hhalted
        obtain ⟨j, -, hresets⟩ := exists_reset hm
        exact h.delivers_of_reset hresets hidle hsent n
      · push Not at hhalted
        exact h.delivers_of_running (fun m => by simpa using hhalted m) hidle n
    refine ⟨fun n => ?_, fun n => (hboth n).1, fun n => (hboth n).2⟩
    have hordered := (h.delivered n).ordered
    rw [taken_eq_handed hidle] at hordered
    rw [responses_trace, framesOf_append]
    exact hordered.trans (List.prefix_append _ _)

end Fair

/-! ## Two requests for the vehicle identification number -/

/-- Nothing is left to do, and nothing comes in. -/
structure Drained (s : System) : Prop where
  idle : s.canTp.tx.state = .idle
  empty : s.canTp.diagRequestQueue = []
  calm : s.dcm.bootRequest.pendingMagic = 0
  next : s.next.response = none ∧ (∀ request, s.next ≠ .processing request) ∧ s.halted = false

theorem Drained.advance (h : Drained s) (now : Nat) : Drained (advance true now s) := by
  refine ⟨?_, h.empty, h.calm, rfl, fun _ => Statement.noConfusion, rfl⟩
  show (CanTp.advanceTx true Stamp.value ⟨now, s.time⟩ s.canTp.tx).1.state = .idle
  have hout : ¬ CanTp.NBsExpired Stamp.value ⟨now, s.time⟩ s.canTp.tx := by
    intro hout
    have hwait := hout.1
    rw [h.idle] at hwait
    cases hwait
  have hdue : ¬ CanTp.CfDue Stamp.value ⟨now, s.time⟩ s.canTp.tx := by
    intro hdue
    have hsend := hdue.1
    rw [h.idle] at hsend
    cases hsend
  unfold CanTp.advanceTx
  simp only [if_neg hout, if_neg hdue]
  exact h.idle

theorem Drained.mainFunction (h : Drained s) (now tick : Word) (running : Slot) :
    Dcm.mainFunction now tick running s.dcm = .ok (Dcm.superviseS3 now s.dcm) := by
  unfold Dcm.mainFunction AppBootRequest.mainFunction
  rw [if_pos (Or.inl h.calm)]

/-- The statement after this one, when there is nothing to do. -/
def Statement.after (time : Nat) : Statement → Statement
  | .reading => .sampling
  | .sampling => .advancing time
  | .advancing _ => .maintaining
  | .maintaining => .delaying time
  | .delaying _ => .reading
  | statement => statement

theorem Drained.diag (h : Drained s) (readings : Dcm.Readings) :
    Drained (diag true readings s) ∧ (diag true readings s).time = s.time ∧
      (diag true readings s).next = s.next.after s.time := by
  unfold AppRTOS.diag
  cases hnext : s.next with
  | reading =>
    have hread : CanTp.readRequest s.canTp = (none, s.canTp) := by
      unfold CanTp.readRequest
      rw [h.empty]
    simp only [hread]
    exact ⟨⟨h.idle, h.empty, h.calm, rfl, fun _ => Statement.noConfusion, rfl⟩, trivial, rfl⟩
  | processing request => exact absurd hnext (h.next.2.1 request)
  | responding response =>
    have hnone := h.next.1
    rw [hnext] at hnone
    cases hnone
  | sampling | maintaining =>
    exact ⟨⟨h.idle, h.empty, h.calm, rfl, fun _ => Statement.noConfusion, rfl⟩, rfl, rfl⟩
  | advancing now => exact ⟨h.advance now, rfl, rfl⟩
  | delaying now =>
    simp only [h.mainFunction]
    refine ⟨⟨h.idle, h.empty, ?_, rfl, fun _ => Statement.noConfusion, rfl⟩, trivial, rfl⟩
    show (Dcm.superviseS3 _ s.dcm).bootRequest.pendingMagic = 0
    unfold Dcm.superviseS3
    split
    · exact h.calm
    · exact h.calm
  | resetting record =>
    have hrunning := h.next.2.2
    unfold System.halted at hrunning
    rw [hnext] at hrunning
    cases hrunning

theorem Drained.transmit (h : Drained s) (ready : Bool) : Drained (transmit ready s) ∧
    (transmit ready s).time = s.time ∧ (transmit ready s).next = s.next := by
  unfold AppRTOS.transmit
  split
  · exact ⟨⟨h.idle, h.empty, h.calm, h.next⟩, rfl, rfl⟩
  · exact ⟨h, rfl, rfl⟩

def clearance : CanFrame := CanTp.testerControl CanTp.fcStatusCts 0 0

/-- Both requests are in the queue before the first response is handed over. -/
def twoRequests : List Event :=
  [.receive true vinRequest, .receive true vinRequest, diagGoesOn, diagGoesOn, diagGoesOn, diagGoesOn,
    diagGoesOn, diagGoesOn, .receive true clearance, diagGoesOn, diagGoesOn, diagGoesOn, diagGoesOn,
    diagGoesOn, diagGoesOn, diagGoesOn, diagGoesOn, diagGoesOn, diagGoesOn]

/-- A millisecond in which nothing comes in. -/
def quietTurn (n : Nat) : Event :=
  if n < 5 then diagGoesOn else if n = 5 then .transmit true else .tick

def twoRequestsAndOn (n : Nat) : Event := twoRequests.getD n (quietTurn ((n - 19) % 7))

theorem twoRequestsAndOn_of_le {n : Nat} (h : 19 ≤ n) :
    twoRequestsAndOn n = quietTurn ((n - 19) % 7) := by
  unfold twoRequestsAndOn
  rw [List.getD_eq_getElem?_getD, List.getElem?_eq_none h]
  rfl

/-- What a quiet step does. -/
theorem Drained.quiet (h : Drained s) (n : Nat) : Drained (step (quietTurn n) s) ∧
    (n < 5 → (step (quietTurn n) s).time = s.time ∧
      (step (quietTurn n) s).next = s.next.after s.time) ∧
    (5 ≤ n → (step (quietTurn n) s).next = s.next) ∧
    (5 = n → (step (quietTurn n) s).time = s.time) ∧
    (5 < n → (step (quietTurn n) s).time = s.time + 1) := by
  rw [step_of_running h.next.2.2]
  unfold quietTurn
  split
  · exact ⟨(h.diag someReadings).1, fun _ => (h.diag someReadings).2, by omega, by omega, by omega⟩
  split
  · obtain ⟨hdrained, htime, hnext⟩ := h.transmit true
    exact ⟨hdrained, by omega, fun _ => hnext, fun _ => htime, by omega⟩
  · exact ⟨⟨h.idle, h.empty, h.calm, h.next⟩, by omega, fun _ => rfl, by omega, fun _ => rfl⟩

theorem drained_twoRequests (n : Nat) (h : 19 ≤ n) :
    Drained (trace twoRequestsAndOn (start 5 initialDcm) n) := by
  induction n, h using Nat.le_induction with
  | base =>
    have hreading : (trace twoRequestsAndOn (start 5 initialDcm) 19).next = .reading := by rfl
    refine ⟨by decide, by decide, by decide, by decide, ?_, by decide⟩
    rw [hreading]
    exact fun _ => Statement.noConfusion
  | succ n h ih =>
    show Drained (step (twoRequestsAndOn n) _)
    rw [twoRequestsAndOn_of_le h]
    exact (ih.quiet _).1

theorem state_twoRequests {n : Nat} {state : CanTp.TxState} (hne : state ≠ .idle)
    (h : (trace twoRequestsAndOn (start 5 initialDcm) n).canTp.tx.state = state) : n < 19 := by
  by_contra hle
  rw [(drained_twoRequests n (by omega)).idle] at h
  exact hne h.symm

/-- In a quiet millisecond the task goes once around, and enters its critical section with the tick of
    the moment. -/
theorem Drained.turn (h : Drained s) (hnext : s.next = .reading) :
    (trace quietTurn s 2).time = s.time ∧ (trace quietTurn s 2).next = .advancing s.time ∧
      (trace quietTurn s 7).time = s.time + 1 ∧ (trace quietTurn s 7).next = .reading := by
  obtain ⟨h₁, hgoes₁, -⟩ := h.quiet 0
  obtain ⟨htime₁, hnext₁⟩ := hgoes₁ (by decide)
  rw [hnext] at hnext₁
  obtain ⟨h₂, hgoes₂, -⟩ := h₁.quiet 1
  obtain ⟨htime₂, hnext₂⟩ := hgoes₂ (by decide)
  rw [hnext₁, htime₁] at hnext₂
  rw [htime₁] at htime₂
  obtain ⟨h₃, hgoes₃, -⟩ := h₂.quiet 2
  obtain ⟨htime₃, hnext₃⟩ := hgoes₃ (by decide)
  rw [hnext₂] at hnext₃
  rw [htime₂] at htime₃
  obtain ⟨h₄, hgoes₄, -⟩ := h₃.quiet 3
  obtain ⟨htime₄, hnext₄⟩ := hgoes₄ (by decide)
  rw [hnext₃] at hnext₄
  rw [htime₃] at htime₄
  obtain ⟨h₅, hgoes₅, -⟩ := h₄.quiet 4
  obtain ⟨htime₅, hnext₅⟩ := hgoes₅ (by decide)
  rw [hnext₄] at hnext₅
  rw [htime₄] at htime₅
  obtain ⟨h₆, -, hnext₆, htime₆, -⟩ := h₅.quiet 5
  obtain ⟨-, -, hnext₇, -, htime₇⟩ := h₆.quiet 6
  refine ⟨htime₂, hnext₂, (htime₇ (by decide)).trans ?_, (hnext₇ (by decide)).trans ?_⟩
  · rw [htime₆ rfl, htime₅]
  · rw [hnext₆ le_rfl, hnext₅]
    rfl

/-- The run in pieces. -/
theorem trace_add {events events' : Nat → Event} {s : System} {n : Nat} : ∀ (m : Nat),
    (∀ i, i < m → events (n + i) = events' i) →
    trace events s (n + m) = trace events' (trace events s n) m := by
  intro m
  induction m with
  | zero => exact fun _ => rfl
  | succ m ih =>
    intro hevents
    show step (events (n + m)) (trace events s (n + m)) = _
    rw [ih fun i hi => hevents i (Nat.lt_succ_of_lt hi), hevents m (Nat.lt_succ_self m)]
    rfl

theorem turn_twoRequests (q : Nat) :
    (trace twoRequestsAndOn (start 5 initialDcm) (19 + 7 * q)).time = 5 + q ∧
      (trace twoRequestsAndOn (start 5 initialDcm) (19 + 7 * q)).next = .reading := by
  induction q with
  | zero => exact ⟨by decide, by rfl⟩
  | succ q ih =>
    have hturn := (drained_twoRequests (19 + 7 * q) (by omega)).turn ih.2
    rw [show 19 + 7 * (q + 1) = 19 + 7 * q + 7 by omega, trace_add 7 fun i hi => ?_, hturn.2.2.1,
      hturn.2.2.2, ih.1]
    · exact ⟨by omega, rfl⟩
    · rw [twoRequestsAndOn_of_le (by omega)]
      congr 1
      omega

theorem enters_twoRequests (q : Nat) : Enters (twoRequestsAndOn (19 + 7 * q + 2))
    (trace twoRequestsAndOn (start 5 initialDcm) (19 + 7 * q + 2)) (5 + q) ∧
    (trace twoRequestsAndOn (start 5 initialDcm) (19 + 7 * q + 2)).time = 5 + q := by
  have hturn := (drained_twoRequests (19 + 7 * q) (by omega)).turn (turn_twoRequests q).2
  rw [(turn_twoRequests q).1] at hturn
  have hevent : ∀ i, twoRequestsAndOn (19 + 7 * q + i) = quietTurn (i % 7) := by
    intro i
    rw [twoRequestsAndOn_of_le (by omega)]
    congr 1
    omega
  rw [trace_add 2 fun i hi => (hevent i).trans (by rw [Nat.mod_eq_of_lt (by omega)])]
  exact ⟨⟨⟨true, someReadings, hevent 2⟩, hturn.2.1⟩, hturn.1⟩

/-- The next quiet millisecond. -/
theorem exists_turn (n : Nat) : ∃ q, n ≤ 19 + 7 * q ∧
    5 + q ≤ (trace twoRequestsAndOn (start 5 initialDcm) n).time + 1 ∧
    (trace twoRequestsAndOn (start 5 initialDcm) n).time ≤ 5 + q := by
  refine ⟨(n - 13) / 7, by omega, ?_, ?_⟩
  · by_cases hn : n ≤ 19
    · have hmono := time_mono twoRequestsAndOn (start 5 initialDcm) (Nat.zero_le n)
      have hzero : (trace twoRequestsAndOn (start 5 initialDcm) 0).time = 5 := rfl
      omega
    · have hmono := time_mono twoRequestsAndOn (start 5 initialDcm)
        (by omega : 19 + 7 * ((n - 13) / 7 - 1) ≤ n)
      rw [(turn_twoRequests _).1] at hmono
      omega
  · have hmono := time_mono twoRequestsAndOn (start 5 initialDcm)
      (by omega : n ≤ 19 + 7 * ((n - 13) / 7))
    rw [(turn_twoRequests _).1] at hmono
    exact hmono

theorem fair_twoRequests : Fair 1 twoRequestsAndOn (start 5 initialDcm) := by
  refine ⟨by decide, fun n accept readings hevent => ?_, fun n flowStatus hcontrolled => ?_,
    fun n hasks => ?_, fun n => ?_, fun n => ?_, fun n => ?_⟩
  · by_cases hn : n < 19
    · interval_cases n <;> cases hevent <;> rfl
    · rw [twoRequestsAndOn_of_le (by omega)] at hevent
      unfold quietTurn at hevent
      split at hevent
      · cases hevent
        rfl
      split at hevent
      · cases hevent
      · cases hevent
  · obtain ⟨accept, frame, hevent, hfc, hwait⟩ := hcontrolled
    have hn := state_twoRequests (by decide) hwait
    interval_cases n <;> cases hevent <;> first | exact hfc.status.symm | exact absurd hwait (by decide)
  · -- only the first frame of the first response is answered
    obtain ⟨hbefore, hafter⟩ := hasks
    have hn := state_twoRequests (by decide) hafter
    have hfour : n = 4 := by
      by_contra hne
      have hlt : n < 18 := by omega
      interval_cases n <;>
        first | exact hne rfl | exact absurd hafter (by decide) | exact hbefore (by decide)
    subst hfour
    exact ⟨8, by decide, by decide,
      .inr ⟨true, clearance, rfl, ⟨rfl, by decide, by decide, by decide⟩⟩⟩
  · obtain ⟨q, hn, hclose, hbefore⟩ := exists_turn n
    obtain ⟨henters, htime⟩ := enters_twoRequests q
    exact ⟨19 + 7 * q + 2, by omega, by omega, .inr ⟨5 + q, henters, hbefore⟩⟩
  · obtain ⟨q, hn, -, hbefore⟩ := exists_turn n
    refine ⟨19 + 7 * (q + 1), by omega, .inr ?_⟩
    rw [(turn_twoRequests _).1]
    omega
  · obtain ⟨q, hn, -, -⟩ := exists_turn n
    refine ⟨19 + 7 * q + 5, by omega, .inr ?_⟩
    rw [twoRequestsAndOn_of_le (by omega), show (19 + 7 * q + 5 - 19) % 7 = 5 by omega]
    rfl

/-- The run is fair, so its responses arrive if they are handed to an idle transmitter and none is cut
    off. -/
theorem delivers_iff_twoRequests : Delivers twoRequestsAndOn (start 5 initialDcm) ↔
    HandedWhenIdle twoRequestsAndOn (start 5 initialDcm) ∧
      ResetWhenSent twoRequestsAndOn (start 5 initialDcm) :=
  delivers_iff fair_twoRequests

/-- The second response is handed over while the first one waits for its flow control. -/
theorem second_response_lost : ¬ ∀ (pace : Nat) (events : Nat → Event) (time : Nat)
    (dcm : Dcm.State), Fair pace events (start time dcm) → Delivers events (start time dcm) := by
  intro h
  have hdelivers := h 1 twoRequestsAndOn 5 initialDcm fair_twoRequests
  obtain ⟨response, hhand⟩ : ∃ response, handover (twoRequestsAndOn 7)
      (trace twoRequestsAndOn (start 5 initialDcm) 7) = some response := ⟨_, rfl⟩
  exact fair_twoRequests.lost hhand (by decide) hdelivers

end AppRTOS
