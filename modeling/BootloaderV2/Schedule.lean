import BootloaderV2.DiagTask

/-!
# The tasks in time

Endless runs of `Task_Diag` among the other tasks, what a run promises that keeps pace with the tick,
and what one of its steps does to the transmitter.
-/

open CanIf (CanFrame)

namespace AppRTOS

open CanTp (DiagPdu nBsTimeoutMs responseFrames)
open Segmentation (segments)

/-! ## Endless runs -/

/-- The system after the first `n` events. -/
def trace (events : Nat → Event) (s : System) : Nat → System
  | 0 => s
  | n + 1 => step (events n) (trace events s n)

/-- The response in the hands of `Task_Diag`. -/
def Statement.response : Statement → Option DiagPdu
  | .responding response => some response
  | _ => none

/-- The response that the step hands to the transport layer. -/
def handover : Event → System → Option DiagPdu
  | .diag _ _, s => s.next.response
  | _, _ => none

theorem handover_of_halted {s : System} (h : s.halted = true) (e : Event) :
    handover e s = none := by
  cases e with
  | diag accept readings =>
    show s.next.response = none
    unfold System.halted at h
    cases hnext : s.next with
    | resetting record => rfl
    | _ =>
      rw [hnext] at h
      cases h
  | _ => rfl

/-- What was handed over in the first `n` steps. -/
def handed (events : Nat → Event) (s : System) : Nat → List DiagPdu
  | 0 => []
  | n + 1 => handed events s n ++ (handover (events n) (trace events s n)).toList

/-- What an idle transmitter was handed. -/
def taken (events : Nat → Event) (s : System) : Nat → List DiagPdu
  | 0 => []
  | n + 1 => taken events s n ++
      if (trace events s n).canTp.tx.state = .idle then
        (handover (events n) (trace events s n)).toList
      else []

/-- The frames of some responses, one after the other. -/
def framesOf (responses : List DiagPdu) : List CanFrame :=
  responses.flatMap fun response => segments response.payload

@[simp] theorem framesOf_append (xs ys : List DiagPdu) :
    framesOf (xs ++ ys) = framesOf xs ++ framesOf ys :=
  List.flatMap_append

theorem framesOf_singleton (response : DiagPdu) :
    framesOf [response] = segments response.payload := by
  simp [framesOf]

/-- The frames that have left the transmit queue. -/
def System.sentFrames (s : System) : List CanFrame := s.queued.take s.sent

/-- Every response is queued, once, in order, to its last frame, and what is queued is sent. -/
structure Delivers (events : Nat → Event) (s : System) : Prop where
  ordered : ∀ n, responseFrames (trace events s n).queued <+: framesOf (trace events s n).responses
  complete : ∀ n, ∃ m, n ≤ m ∧
    responseFrames (trace events s m).queued = framesOf (trace events s m).responses
  sent : ∀ n, ∃ m, n ≤ m ∧
    responseFrames (trace events s n).queued <+: responseFrames (trace events s m).sentFrames

/-- The step hands a flow control to a transmitter that waits for one. -/
def Controlled (flowStatus : Byte) (e : Event) (s : System) : Prop :=
  ∃ accept frame, e = .receive accept frame ∧ CanTp.FlowControl flowStatus frame ∧
    s.canTp.tx.state = .waitFc

/-- The tester's clearance to send comes in. -/
def ClearsToSend (e : Event) : Prop :=
  ∃ accept frame, e = .receive accept frame ∧ CanTp.FlowControl CanTp.fcStatusCts frame

/-- The transmitter begins to wait for a flow control. -/
def Asks (s s' : System) : Prop := s.canTp.tx.state ≠ .waitFc ∧ s'.canTp.tx.state = .waitFc

/-- What the surroundings promise: room in the transmit queue, and a tester that answers a first frame
    and a full block in time, with nothing but a clearance to send.  Within `pace` milliseconds
    `Task_Diag` has come to `CanTp_MainFunction` again, with a tick that it has read since; the tick
    and `Task_CanTx` go on.  A reset ends all of it. -/
structure Fair (pace : Nat) (events : Nat → Event) (s : System) : Prop where
  brisk : pace < nBsTimeoutMs
  accepts : ∀ n accept readings, events n = .diag accept readings → accept = true
  clears : ∀ n flowStatus, Controlled flowStatus (events n) (trace events s n) →
    flowStatus = CanTp.fcStatusCts
  answers : ∀ n, Asks (trace events s n) (trace events s (n + 1)) → ∃ m, n < m ∧
    (trace events s m).time + pace < (trace events s n).time + nBsTimeoutMs ∧
    ((trace events s m).halted = true ∨ ClearsToSend (events m))
  turns : ∀ n, ∃ m, n ≤ m ∧ (trace events s m).time ≤ (trace events s n).time + pace ∧
    ((trace events s m).halted = true ∨
      ∃ now, Enters (events m) (trace events s m) now ∧ (trace events s n).time ≤ now)
  ticks : ∀ n, ∃ m, n ≤ m ∧
    ((trace events s m).halted = true ∨ (trace events s n).time < (trace events s m).time)
  sends : ∀ n, ∃ m, n ≤ m ∧ ((trace events s m).halted = true ∨ events m = .transmit true)

/-! ## What a step leaves -/

/-- The time stands still or goes on by one. -/
theorem time_step (e : Event) (s : System) :
    (step e s).time = s.time ∨ (step e s).time = s.time + 1 := by
  rcases step_cases e s with ⟨-, heq⟩ | ⟨-, heq⟩
  · rw [heq]
    exact .inl rfl
  rw [heq]
  cases e with
  | tick => exact .inr rfl
  | receive accept frame => exact .inl rfl
  | confirm => exact .inl rfl
  | transmit ready =>
    left
    show (transmit ready s).time = s.time
    unfold transmit
    split <;> rfl
  | diag accept readings =>
    left
    show (diag accept readings s).time = s.time
    unfold diag
    repeat' split
    all_goals rfl

/-- What was queued stays before what is queued. -/
theorem queued_step (e : Event) (s : System) : s.queued <+: (step e s).queued := by
  rcases step_cases e s with ⟨-, heq⟩ | ⟨-, heq⟩
  · rw [heq]
  rw [heq]
  cases e with
  | tick => exact List.prefix_rfl
  | receive accept frame => exact List.prefix_append _ _
  | confirm => exact List.prefix_rfl
  | transmit ready =>
    show s.queued <+: (transmit ready s).queued
    unfold transmit
    split <;> exact List.prefix_rfl
  | diag accept readings =>
    show s.queued <+: (diag accept readings s).queued
    unfold diag
    repeat' split
    all_goals first | exact List.prefix_rfl | exact List.prefix_append _ _

/-- A frame that was sent stays sent. -/
theorem sent_step (e : Event) (s : System) : s.sent ≤ (step e s).sent := by
  rcases step_cases e s with ⟨-, heq⟩ | ⟨-, heq⟩
  · rw [heq]
  rw [heq]
  cases e with
  | tick => exact le_rfl
  | receive accept frame => exact le_rfl
  | confirm => exact le_rfl
  | transmit ready =>
    show s.sent ≤ (transmit ready s).sent
    unfold transmit
    split
    · exact Nat.le_succ _
    · exact le_rfl
  | diag accept readings =>
    show s.sent ≤ (diag accept readings s).sent
    unfold diag
    repeat' split
    all_goals exact le_rfl

/-- Only `Task_Diag` goes on in its own statements. -/
theorem next_act {e : Event} (s : System) (h : ∀ accept readings, e ≠ .diag accept readings) :
    (act e s).next = s.next := by
  cases e with
  | diag accept readings => exact absurd rfl (h accept readings)
  | transmit ready =>
    show (transmit ready s).next = s.next
    unfold transmit
    split <;> rfl
  | tick | receive accept frame | confirm => rfl

/-- The critical section comes after the statement that reads the tick. -/
theorem time_of_sampled {accept : Bool} {readings : Dcm.Readings} {s : System} {now : Nat}
    (h : (diag accept readings s).next = .advancing now) :
    (diag accept readings s).time = now := by
  unfold diag at h ⊢
  cases hnext : s.next with
  | sampling =>
    rw [hnext] at h
    cases h
    rfl
  | reading =>
    rw [hnext] at h
    dsimp only at h
    split at h <;> cases h
  | processing request =>
    rw [hnext] at h
    dsimp only at h
    split at h <;> cases h
  | delaying now =>
    rw [hnext] at h
    dsimp only at h
    split at h <;> cases h
  | responding response | advancing now | maintaining =>
    rw [hnext] at h
    cases h
  | resetting record =>
    rw [hnext] at h
    change s.next = _ at h
    rw [hnext] at h
    cases h

section

variable {events : Nat → Event} {s : System} {n m : Nat}

theorem time_mono (events : Nat → Event) (s : System) (h : n ≤ m) :
    (trace events s n).time ≤ (trace events s m).time := by
  induction m, h using Nat.le_induction with
  | base => exact le_rfl
  | succ m _ ih =>
    rcases time_step (events m) (trace events s m) with heq | heq
    · exact ih.trans (le_of_eq heq.symm)
    · exact ih.trans ((Nat.le_succ _).trans (le_of_eq heq.symm))

theorem queued_mono (events : Nat → Event) (s : System) (h : n ≤ m) :
    (trace events s n).queued <+: (trace events s m).queued := by
  induction m, h using Nat.le_induction with
  | base => exact List.prefix_rfl
  | succ m _ ih => exact ih.trans (queued_step _ _)

theorem sent_mono (events : Nat → Event) (s : System) (h : n ≤ m) :
    (trace events s n).sent ≤ (trace events s m).sent := by
  induction m, h using Nat.le_induction with
  | base => exact le_rfl
  | succ m _ ih => exact ih.trans (sent_step _ _)

/-- After a reset nothing changes. -/
theorem trace_of_halted (hhalted : (trace events s n).halted = true) (h : n ≤ m) :
    trace events s m = trace events s n := by
  induction m, h using Nat.le_induction with
  | base => rfl
  | succ m _ ih =>
    show step (events m) (trace events s m) = _
    rw [ih]
    exact step_of_halted hhalted _

/-- Where the tick was read that a critical section is entered with; the task has not gone on since. -/
theorem sampled_at (hstart : s.next = .reading) : ∀ (n : Nat) {now : Nat},
    (trace events s n).next = .advancing now → ∃ j, j < n ∧ (trace events s (j + 1)).time = now ∧
      ∀ i, j < i → i < n → ∀ accept readings, events i ≠ .diag accept readings := by
  intro n
  induction n with
  | zero =>
    intro now hnext
    rw [show (trace events s 0).next = .reading from hstart] at hnext
    cases hnext
  | succ n ih =>
    intro now hnext
    have hstep : trace events s (n + 1) = step (events n) (trace events s n) := rfl
    rw [hstep] at hnext
    have hrunning : (trace events s n).halted = false := by
      rcases step_cases (events n) (trace events s n) with ⟨hhalted, heq⟩ | ⟨hrunning, -⟩
      · rw [heq] at hnext
        unfold System.halted at hhalted
        rw [hnext] at hhalted
        cases hhalted
      · exact hrunning
    rw [step_of_running hrunning] at hnext
    by_cases hdiag : ∃ accept readings, events n = .diag accept readings
    · obtain ⟨accept, readings, hevent⟩ := hdiag
      refine ⟨n, Nat.lt_succ_self n, ?_, fun i hlt hle => absurd hlt (by omega)⟩
      rw [hevent] at hnext
      rw [hstep, step_of_running hrunning, hevent]
      exact time_of_sampled hnext
    · push Not at hdiag
      have hsame : (trace events s n).next = .advancing now := by
        rw [← hnext, next_act _ hdiag]
      obtain ⟨j, hj, htime, hnone⟩ := ih hsame
      refine ⟨j, Nat.lt_succ_of_lt hj, htime, fun i hlt hle accept readings hevent => ?_⟩
      by_cases hin : i < n
      · exact hnone i hlt hin accept readings hevent
      · obtain rfl : i = n := by omega
        exact hdiag accept readings hevent

end

/-! ## What holds on the way -/

variable {s : System} {e : Event}

/-- The response in hand is one that the transport layer takes, and a tick that was read is not older
    than what the transmitter waits since. -/
structure Proper (s : System) : Prop where
  clocked : Clocked s
  fits : ∀ response, s.next = .responding response → Dcm.Fits response
  waits : s.canTp.tx.state = .waitFc → ∀ now, s.next = .advancing now →
    s.canTp.tx.lastActivityTick.tick ≤ now

theorem proper_start (time : Nat) (dcm : Dcm.State) : Proper (start time dcm) :=
  ⟨clocked_start time dcm, fun _ h => Statement.noConfusion h, fun h => CanTp.TxState.noConfusion h⟩

theorem Proper.receive (h : Proper s) {accept : Bool} {frame : CanFrame}
    (hclears : ∀ flowStatus, Controlled flowStatus (.receive accept frame) s →
      flowStatus = CanTp.fcStatusCts) : Proper (receive accept frame s) := by
  refine ⟨h.clocked.act (.receive accept frame), h.fits, fun hwait now hnext => ?_⟩
  have htx : (CanTp.rxIndication accept (Stamp.at s.time) frame s.canTp).1.tx.state = .waitFc :=
    hwait
  show (CanTp.rxIndication accept (Stamp.at s.time) frame s.canTp).1.tx.lastActivityTick.tick ≤ now
  rcases CanTp.rxIndication_tx accept (Stamp.at s.time) frame s.canTp with
    heq | ⟨hid, hdlc, hpci, heq⟩
  · rw [heq] at htx ⊢
    exact h.waits htx now hnext
  rw [heq] at htx ⊢
  rcases CanTp.handleFlowControl_cases (Stamp.at s.time) frame s.canTp.tx with
    heq | ⟨hthree, hbefore, ⟨-, heq⟩ | ⟨hstatus, -⟩ | ⟨-, -, heq⟩⟩
  · rw [heq] at htx ⊢
    exact h.waits htx now hnext
  · rw [heq] at htx
    cases htx
  · -- the tester does not ask to wait
    have hcts := hclears _ ⟨accept, frame, rfl, ⟨hid, ⟨hthree, hdlc⟩, hpci, hstatus⟩, hbefore⟩
    exact absurd hcts (by decide)
  · rw [heq] at htx
    cases htx

theorem Proper.diag (h : Proper s) (accept : Bool) (readings : Dcm.Readings) :
    Proper (diag accept readings s) := by
  have hclocked := h.clocked.diag accept readings
  unfold AppRTOS.diag at hclocked ⊢
  split at hclocked
  · split at hclocked
    · exact ⟨hclocked, fun _ hn => Statement.noConfusion hn, fun _ _ hn => Statement.noConfusion hn⟩
    · exact ⟨hclocked, fun _ hn => Statement.noConfusion hn, fun _ _ hn => Statement.noConfusion hn⟩
  · split at hclocked
    · rename_i response dcm hprocess
      refine ⟨hclocked, fun response' hn => ?_, fun _ _ hn => Statement.noConfusion hn⟩
      cases hn
      apply Dcm.fits_processRequest
      rw [hprocess]
    · exact ⟨hclocked, fun _ hn => Statement.noConfusion hn, fun _ _ hn => Statement.noConfusion hn⟩
  · exact ⟨hclocked, fun _ hn => Statement.noConfusion hn, fun _ _ hn => Statement.noConfusion hn⟩
  · refine ⟨hclocked, fun _ hn => Statement.noConfusion hn, fun _ now hn => ?_⟩
    cases hn
    have hpast := h.clocked.ticks.txActivity
    exact hpast.1.trans hpast.2
  · exact ⟨hclocked, fun _ hn => Statement.noConfusion hn, fun _ _ hn => Statement.noConfusion hn⟩
  · exact ⟨hclocked, fun _ hn => Statement.noConfusion hn, fun _ _ hn => Statement.noConfusion hn⟩
  · split at hclocked
    · exact ⟨hclocked, fun _ hn => Statement.noConfusion hn, fun _ _ hn => Statement.noConfusion hn⟩
    · exact ⟨hclocked, fun _ hn => Statement.noConfusion hn, fun _ _ hn => Statement.noConfusion hn⟩
  · exact h

theorem Proper.step (h : Proper s) (hclears : ∀ flowStatus, Controlled flowStatus e s →
    flowStatus = CanTp.fcStatusCts) : Proper (step e s) := by
  rcases step_cases e s with ⟨-, heq⟩ | ⟨-, heq⟩
  · rw [heq]
    exact h
  rw [heq]
  cases e with
  | tick => exact ⟨h.clocked.act .tick, h.fits, h.waits⟩
  | receive accept frame => exact h.receive hclears
  | confirm => exact ⟨h.clocked.act .confirm, h.fits, h.waits⟩
  | transmit ready =>
    have hclocked : Clocked (transmit ready s) := h.clocked.transmit ready
    show Proper (transmit ready s)
    unfold transmit at hclocked ⊢
    split
    · rw [if_pos ‹_›] at hclocked
      exact ⟨hclocked, h.fits, h.waits⟩
    · exact h
  | diag accept readings => exact h.diag accept readings

/-! ## The transmitter -/

/-- What one step does to the transmitter, and the response that it hands over; everything else leaves
    the transmitter and the frames of responses alone. -/
inductive Moves (s : System) : System → Option DiagPdu → Prop
  | stays {s' : System} : s'.canTp.tx = s.canTp.tx →
      responseFrames s'.queued = responseFrames s.queued → Moves s s' none
  | cleared {s' : System} {frame : CanFrame} : s.canTp.tx.state = .waitFc →
      s'.canTp.tx = CanTp.handleFlowControl (Stamp.at s.time) frame s.canTp.tx →
      s'.canTp.tx.state = .sendCf →
      responseFrames s'.queued = responseFrames s.queued → Moves s s' none
  | hands {response : DiagPdu} : s.next = .responding response →
      Moves s (respond true response s) (some response)
  | advances {now : Nat} : s.next = .advancing now → Moves s (advance true now s) none

theorem moves_receive (accept : Bool) (frame : CanFrame)
    (hclears : ∀ flowStatus, Controlled flowStatus (.receive accept frame) s →
      flowStatus = CanTp.fcStatusCts) : Moves s (receive accept frame s) none := by
  have hframes : responseFrames (receive accept frame s).queued = responseFrames s.queued := by
    show responseFrames (s.queued ++
      (CanTp.rxIndication accept (Stamp.at s.time) frame s.canTp).2) = _
    rw [CanTp.responseFrames_append, CanTp.responseFrames_rxIndication, List.append_nil]
  rcases CanTp.rxIndication_tx accept (Stamp.at s.time) frame s.canTp with
    heq | ⟨hid, hdlc, hpci, heq⟩
  · exact .stays heq hframes
  rcases CanTp.handleFlowControl_cases (Stamp.at s.time) frame s.canTp.tx with
    hsame | ⟨hthree, hwait, hcases⟩
  · exact .stays (heq.trans hsame) hframes
  · have hcontrolled : Controlled (frame.byte 0 &&& CanTp.pciLowNibbleMask)
        (.receive accept frame) s :=
      ⟨accept, frame, rfl, ⟨hid, ⟨hthree, hdlc⟩, hpci, rfl⟩, hwait⟩
    have hcts := hclears _ hcontrolled
    rcases hcases with ⟨-, htx⟩ | ⟨hstatus, -⟩ | ⟨hne, -, -⟩
    · refine @Moves.cleared _ _ frame hwait heq ?_ hframes
      show (CanTp.rxIndication accept (Stamp.at s.time) frame s.canTp).1.tx.state = .sendCf
      rw [heq, htx]
    · rw [hcts] at hstatus
      exact absurd hstatus (by decide)
    · exact absurd hcts hne

theorem moves_diag (readings : Dcm.Readings) :
    Moves s (diag true readings s) (handover (.diag true readings) s) := by
  show Moves s (diag true readings s) s.next.response
  unfold diag
  cases hnext : s.next with
  | reading =>
    dsimp only [Statement.response]
    split
    · rename_i request canTp hread
      have htx := (CanTp.readRequest_rx_tx s.canTp).2
      rw [hread] at htx
      exact .stays htx rfl
    · exact .stays rfl rfl
  | processing request =>
    dsimp only [Statement.response]
    split
    · exact .stays rfl rfl
    · exact .stays rfl rfl
  | responding response => exact .hands hnext
  | sampling => exact .stays rfl rfl
  | advancing now => exact .advances hnext
  | maintaining => exact .stays rfl rfl
  | delaying now =>
    dsimp only [Statement.response]
    split
    · exact .stays rfl rfl
    · exact .stays rfl rfl
  | resetting record => exact .stays rfl rfl

theorem moves_step (haccepts : ∀ accept readings, e = .diag accept readings → accept = true)
    (hclears : ∀ flowStatus, Controlled flowStatus e s → flowStatus = CanTp.fcStatusCts) :
    Moves s (step e s) (handover e s) := by
  rcases step_cases e s with ⟨hhalted, heq⟩ | ⟨-, heq⟩
  · rw [heq, handover_of_halted hhalted]
    exact .stays rfl rfl
  rw [heq]
  cases e with
  | tick | confirm => exact .stays rfl rfl
  | transmit ready =>
    show Moves s (transmit ready s) none
    unfold transmit
    split
    · exact .stays rfl rfl
    · exact .stays rfl rfl
  | receive accept frame => exact moves_receive accept frame hclears
  | diag accept readings =>
    obtain rfl := haccepts accept readings rfl
    exact moves_diag readings

/-- A busy transmitter refuses a response. -/
theorem transmit_of_busy (h : s.canTp.tx.state ≠ .idle) (response : DiagPdu) :
    CanTp.transmit true (Stamp.at s.time) response s.canTp = (false, s.canTp, []) := by
  unfold CanTp.transmit
  rw [if_pos h, ite_self]

/-- A transmitter that begins to wait does so with the tick of the moment, or with the one that the
    critical section was entered with. -/
theorem Moves.asks {s' : System} {o : Option DiagPdu} (h : Moves s s' o) (hasks : Asks s s') :
    s'.canTp.tx.lastActivityTick = Stamp.at s.time ∨
      ∃ now, s.next = .advancing now ∧ s'.canTp.tx.lastActivityTick = ⟨now, s.time⟩ := by
  obtain ⟨hbefore, hafter⟩ := hasks
  cases h with
  | stays htx _ =>
    rw [htx] at hafter
    exact absurd hafter hbefore
  | cleared _ _ hsend _ =>
    rw [hsend] at hafter
    cases hafter
  | hands hnext => exact .inl (CanTp.transmit_waits hbefore hafter)
  | advances hnext => exact .inr ⟨_, hnext, CanTp.advanceTx_waits hbefore hafter⟩

/-- One that goes on waiting is left alone. -/
theorem Moves.waits {s' : System} {o : Option DiagPdu} (h : Moves s s' o)
    (hbefore : s.canTp.tx.state = .waitFc) (hafter : s'.canTp.tx.state = .waitFc) :
    s'.canTp.tx = s.canTp.tx := by
  cases h with
  | stays htx _ => exact htx
  | cleared _ _ hsend _ =>
    rw [hsend] at hafter
    cases hafter
  | hands hnext =>
    rename_i response
    have hbusy : s.canTp.tx.state ≠ .idle := by
      rw [hbefore]
      exact CanTp.TxState.noConfusion
    show (CanTp.transmit true (Stamp.at s.time) response s.canTp).2.1.tx = _
    rw [transmit_of_busy hbusy]
  | advances hnext => exact CanTp.advanceTx_still hbefore hafter

end AppRTOS
