import BootloaderV2.Dcm
import BootloaderV2.Ticks

/-!
# The diagnostic task among the others

`Task_Diag` of `AppRTOS.c`, statement by statement, beside the reception of frames by `Task_CanRx`,
their transmission by `Task_CanTx`, the confirmation by `Task_AppHealth` and the tick interrupt.
Between any two statements of `Task_Diag` the others may run, and the tick may go on.  The reset of
`AppBootRequest_MainFunction` ends all of it.
-/

open CanIf (CanFrame)

namespace AppRTOS

open CanTp (DiagPdu nBsTimeoutMs nCrTimeoutMs responseFrames)

/-- A tick that was read, and the moment at which it was stored.  The counter shows the low word of
    the time. -/
structure Stamp where
  tick : Nat
  stored : Nat
  deriving DecidableEq, Repr

instance : Zero Stamp := ⟨⟨0, 0⟩⟩

def Stamp.value (stamp : Stamp) : Word := BitVec.ofNat 32 stamp.tick

/-- On these moments the transport layer does what it does on the counter. -/
theorem Stamp.exec_value (op : CanTp.Op Stamp) (s : CanTp.State Stamp) :
    (op.map value).exec id (s.map value) =
      ((op.exec value s).1.map value, (op.exec value s).2) :=
  CanTp.exec_map rfl op s

/-- What is read and stored at once. -/
def Stamp.at (time : Nat) : Stamp := ⟨time, time⟩

/-- The next statement of `Task_Diag`. -/
inductive Statement where
  | reading
  | processing (request : DiagPdu)
  | responding (response : DiagPdu)
  /-- `CanTp_MainFunction` reads the tick. -/
  | sampling
  /-- It enters the critical section with the tick that it has read. -/
  | advancing (now : Nat)
  /-- `Dcm_MainFunction` reads the tick. -/
  | maintaining
  /-- The rest of it, with the tick that it has read, and the delay. -/
  | delaying (now : Nat)
  /-- The record is stored and the reset is asked for; the interrupts are disabled. -/
  | resetting (record : RetainedRecord)

/-- The variables of the tasks.  `queued` and `responses` are what the transmit queue has taken and
    what `Dcm_ProcessRequest` has made; the first `sent` frames of `queued` have left it. -/
structure System where
  time : Nat
  canTp : CanTp.State Stamp
  dcm : Dcm.State
  next : Statement
  queued : List CanFrame
  sent : Nat
  responses : List DiagPdu

inductive Event where
  | tick
  /-- `Task_CanRx` hands over a frame. -/
  | receive (accept : Bool) (frame : CanFrame)
  /-- `Task_CanTx` submits the next frame, if there is one and the controller is ready. -/
  | transmit (ready : Bool)
  /-- `Task_AppHealth` asks for the confirmation. -/
  | confirm
  /-- `Task_Diag` goes on by one statement. -/
  | diag (accept : Bool) (readings : Dcm.Readings)

def receive (accept : Bool) (frame : CanFrame) (s : System) : System :=
  let r := CanTp.rxIndication accept (Stamp.at s.time) frame s.canTp
  { s with canTp := r.1, queued := s.queued ++ r.2 }

/-- `CanIf_TxMainFunction`; a frame that the controller refuses stays in the queue. -/
def transmit (ready : Bool) (s : System) : System :=
  if ready ∧ s.sent < s.queued.length then { s with sent := s.sent + 1 } else s

/-- `AppBootRequest_RequestConfirmReset`. -/
def confirm (s : System) : System :=
  { s with dcm := { s.dcm with
      bootRequest :=
        AppBootRequest.requestConfirmReset (BitVec.ofNat 32 s.time) s.dcm.bootRequest } }

/-- `PduR_DcmTransmitResponse`, whose result nobody looks at. -/
def respond (accept : Bool) (response : DiagPdu) (s : System) : System :=
  let r := (CanTp.transmit accept (Stamp.at s.time) response s.canTp).2
  { s with canTp := r.1, queued := s.queued ++ r.2, next := .reading }

/-- The critical section of `CanTp_MainFunction`. -/
def advance (accept : Bool) (now : Nat) (s : System) : System :=
  let r := CanTp.mainFunction accept Stamp.value ⟨now, s.time⟩ s.canTp
  { s with canTp := r.1, queued := s.queued ++ r.2, next := .maintaining }

/-- One statement of `Task_Diag`. -/
def diag (accept : Bool) (readings : Dcm.Readings) (s : System) : System :=
  match s.next with
  | .reading =>
    match CanTp.readRequest s.canTp with
    | (some request, canTp) => { s with canTp := canTp, next := .processing request }
    | (none, _) => { s with next := .sampling }
  | .processing request =>
    match Dcm.processRequest (BitVec.ofNat 32 s.time) readings request s.dcm with
    | (some response, dcm) =>
      { s with dcm := dcm, next := .responding response, responses := s.responses ++ [response] }
    | (none, dcm) => { s with dcm := dcm, next := .reading }
  | .responding response => respond accept response s
  | .sampling => { s with next := .advancing s.time }
  | .advancing now => advance accept now s
  | .maintaining => { s with next := .delaying s.time }
  | .delaying now =>
    match Dcm.mainFunction (BitVec.ofNat 32 now) (BitVec.ofNat 32 s.time) readings.runningSlot
        s.dcm with
    | .ok dcm => { s with dcm := dcm, next := .reading }
    | .error record => { s with next := .resetting record }
  | .resetting _ => s

/-- One step while the tasks run. -/
def act : Event → System → System
  | .tick, s => { s with time := s.time + 1 }
  | .receive accept frame, s => receive accept frame s
  | .transmit ready, s => transmit ready s
  | .confirm, s => confirm s
  | .diag accept readings, s => diag accept readings s

/-- The reset was asked for. -/
def System.halted (s : System) : Bool :=
  match s.next with
  | .resetting _ => true
  | _ => false

/-- From then on nothing runs. -/
def step (e : Event) (s : System) : System := if s.halted then s else act e s

def run (events : List Event) (s : System) : System := events.foldl (fun s e => step e s) s

/-- When the tasks are started; the counter may show anything. -/
def start (time : Nat) (dcm : Dcm.State) : System :=
  ⟨time, CanTp.init, dcm, .reading, [], 0, []⟩

theorem step_of_halted {s : System} (h : s.halted = true) (e : Event) : step e s = s := if_pos h

theorem step_of_running {s : System} (h : s.halted = false) (e : Event) : step e s = act e s :=
  if_neg (by rw [h]; exact Bool.false_ne_true)

/-- A step does nothing, or is one of the tasks'. -/
theorem step_cases (e : Event) (s : System) :
    s.halted = true ∧ step e s = s ∨ s.halted = false ∧ step e s = act e s := by
  cases h : s.halted with
  | true => exact .inl ⟨rfl, step_of_halted h e⟩
  | false => exact .inr ⟨rfl, step_of_running h e⟩

theorem run_concat (events : List Event) (e : Event) (s : System) :
    run (events ++ [e]) s = step e (run events s) := by
  unfold run
  rw [List.foldl_append]
  rfl

/-! ## The time of a stamp -/

/-- A stamp of the past. -/
def Stamp.Past (time : Nat) (stamp : Stamp) : Prop :=
  stamp.tick ≤ stamp.stored ∧ stamp.stored ≤ time

/-- No stamp is newer than the time, and no tick newer than its stamp. -/
structure Clocked (s : System) : Prop where
  ticks : s.canTp.Ticks (Stamp.Past s.time)
  sampled : ∀ now, s.next = .advancing now → now ≤ s.time

variable {s : System} {now : Nat}

theorem past_zero (time : Nat) : Stamp.Past time 0 := ⟨le_rfl, Nat.zero_le time⟩

theorem past_at (time : Nat) : Stamp.Past time (Stamp.at time) := ⟨le_rfl, le_rfl⟩

theorem clocked_start (time : Nat) (dcm : Dcm.State) : Clocked (start time dcm) :=
  ⟨CanTp.ticks_init (past_zero time), fun _ h => Statement.noConfusion h⟩

theorem Clocked.diag (h : Clocked s) (accept : Bool) (readings : Dcm.Readings) :
    Clocked (diag accept readings s) := by
  unfold AppRTOS.diag
  split
  · split
    · rename_i request canTp hread
      have hticks := h.ticks.readRequest
      rw [hread] at hticks
      exact ⟨hticks, fun _ hn => Statement.noConfusion hn⟩
    · exact ⟨h.ticks, fun _ hn => Statement.noConfusion hn⟩
  · split
    · exact ⟨h.ticks, fun _ hn => Statement.noConfusion hn⟩
    · exact ⟨h.ticks, fun _ hn => Statement.noConfusion hn⟩
  · exact ⟨h.ticks.transmit (past_at s.time) accept _, fun _ hn => Statement.noConfusion hn⟩
  · refine ⟨h.ticks, fun now hn => ?_⟩
    cases hn
    exact le_rfl
  · rename_i now hnext
    have hpast : Stamp.Past s.time ⟨now, s.time⟩ := ⟨h.sampled now hnext, le_rfl⟩
    exact ⟨h.ticks.mainFunction (past_zero s.time) hpast accept,
      fun _ hn => Statement.noConfusion hn⟩
  · exact ⟨h.ticks, fun _ hn => Statement.noConfusion hn⟩
  · split
    · exact ⟨h.ticks, fun _ hn => Statement.noConfusion hn⟩
    · exact ⟨h.ticks, fun _ hn => Statement.noConfusion hn⟩
  · exact h

theorem Clocked.transmit (h : Clocked s) (ready : Bool) : Clocked (transmit ready s) := by
  unfold AppRTOS.transmit
  split
  · exact ⟨h.ticks, h.sampled⟩
  · exact h

theorem Clocked.act (h : Clocked s) (e : Event) : Clocked (act e s) := by
  cases e with
  | tick =>
    refine ⟨h.ticks.mono fun x hx => ⟨hx.1, Nat.le_succ_of_le hx.2⟩, fun now hn => ?_⟩
    exact Nat.le_succ_of_le (h.sampled now hn)
  | receive accept frame =>
    exact ⟨h.ticks.rxIndication (past_zero s.time) (past_at s.time) accept frame, h.sampled⟩
  | transmit ready => exact h.transmit ready
  | confirm => exact ⟨h.ticks, h.sampled⟩
  | diag accept readings => exact h.diag accept readings

theorem Clocked.step (h : Clocked s) (e : Event) : Clocked (step e s) := by
  rcases step_cases e s with ⟨-, heq⟩ | ⟨-, heq⟩
  · rw [heq]
    exact h
  · rw [heq]
    exact h.act e

theorem clocked_run (events : List Event) (time : Nat) (dcm : Dcm.State) :
    Clocked (run events (start time dcm)) := by
  induction events using List.reverseRecOn with
  | nil => exact clocked_start time dcm
  | append_singleton events e ih =>
    rw [run_concat]
    exact ih.step e

/-! ## Timeouts -/

/-- The step is the critical section of `CanTp_MainFunction`, with the tick `now`. -/
def Enters (e : Event) (s : System) (now : Nat) : Prop :=
  (∃ accept readings, e = .diag accept readings) ∧ s.next = .advancing now

/-- `s` becomes `s'` in the critical section, and what it does is not too early. -/
structure NotEarly (s s' : System) : Prop where
  nCr : s.canTp.rx.state = .waitCf → s'.canTp.rx.state = .idle →
    s.canTp.rx.lastActivityTick.stored + nCrTimeoutMs ≤ s.time
  nBs : s.canTp.tx.state = .waitFc → s'.canTp.tx.state = .idle →
    s.canTp.tx.lastActivityTick.stored + nBsTimeoutMs ≤ s.time
  stmin : s'.queued ≠ s.queued →
    s.canTp.tx.lastCfTick.stored + s.canTp.tx.stminMs.toNat ≤ s.time

/-- The time has passed, or the tick that was read lies within it: not before the stamp, and not
    behind its end. -/
def Judges (timeout : Nat) (last : Stamp) (now time : Nat) : Prop :=
  last.stored + timeout ≤ time ∨ (last.tick ≤ now ∧ now < last.tick + timeout)

/-- The tick was not held back for a whole round of the counter. -/
def Stamp.Recent (stamp : Stamp) : Prop := stamp.stored + 1000 ≤ stamp.tick + 2 ^ 32

/-- The tick that was read does for each of the timers that run. -/
structure InTime (now : Nat) (s : System) : Prop where
  nCr : s.canTp.rx.state = .waitCf → Judges nCrTimeoutMs s.canTp.rx.lastActivityTick now s.time
  nBs : s.canTp.tx.state = .waitFc → Judges nBsTimeoutMs s.canTp.tx.lastActivityTick now s.time
  stmin : s.canTp.tx.state = .sendCf →
    Judges s.canTp.tx.stminMs.toNat s.canTp.tx.lastCfTick now s.time

theorem toNat_ofNat_sub (a b : Nat) :
    (BitVec.ofNat 32 a - BitVec.ofNat 32 b).toNat = (2 ^ 32 - b % 2 ^ 32 + a % 2 ^ 32) % 2 ^ 32 := by
  rw [BitVec.toNat_sub, BitVec.toNat_ofNat, BitVec.toNat_ofNat]

/-- What the code takes for elapsed, as long as the tick is not older than the stamp. -/
theorem elapsed_of_le {last : Stamp} {time : Nat} (h : last.tick ≤ now) :
    CanTp.elapsed Stamp.value ⟨now, time⟩ last ≤ now - last.tick := by
  show (BitVec.ofNat 32 now - BitVec.ofNat 32 last.tick).toNat ≤ _
  rw [toNat_ofNat_sub]
  omega

/-- If it judges, a timer that has run out has done so rightly. -/
theorem Judges.stored_le {timeout : Nat} {last : Stamp} {time : Nat}
    (h : Judges timeout last now time)
    (hout : timeout ≤ CanTp.elapsed Stamp.value ⟨now, time⟩ last) :
    last.stored + timeout ≤ time := by
  rcases h with hpassed | ⟨hle, hlt⟩
  · exact hpassed
  · have helapsed := @elapsed_of_le now last time hle
    omega

/-- If it does not, the timer runs out too early, unless a tick was stored or used a whole round of
    the counter after it was read. -/
theorem elapsed_of_not_judges {timeout : Nat} {last : Stamp} {time : Nat}
    (h : ¬ Judges timeout last now time) (hpast : last.Past time) (hnow : now ≤ time)
    (hstored : last.stored + timeout ≤ last.tick + 2 ^ 32)
    (hround : time + timeout ≤ now + 2 ^ 32) :
    timeout ≤ CanTp.elapsed Stamp.value ⟨now, time⟩ last := by
  unfold Judges at h
  push Not at h
  obtain ⟨hlt, hout⟩ := h
  obtain ⟨htick, hbefore⟩ := hpast
  show timeout ≤ (BitVec.ofNat 32 now - BitVec.ofNat 32 last.tick).toNat
  rw [toNat_ofNat_sub]
  by_cases hle : last.tick ≤ now
  · have hge := hout hle
    omega
  · omega

theorem step_diag_advancing (h : s.next = .advancing now) (accept : Bool)
    (readings : Dcm.Readings) : step (.diag accept readings) s = advance accept now s := by
  have hrunning : s.halted = false := by
    unfold System.halted
    rw [h]
  rw [step_of_running hrunning]
  show AppRTOS.diag accept readings s = _
  unfold AppRTOS.diag
  rw [h]

/-- The critical section, seen from outside: the reception. -/
theorem advance_rx (accept : Bool) (now : Nat) (s : System) :
    (advance accept now s).canTp.rx.state =
      if CanTp.NCrExpired Stamp.value ⟨now, s.time⟩ s.canTp.rx then .idle
      else s.canTp.rx.state := by
  show (if CanTp.NCrExpired Stamp.value ⟨now, s.time⟩ s.canTp.rx then CanTp.resetRx s.canTp.rx
    else s.canTp.rx).state = _
  split
  · rfl
  · rfl

/-- The transmission. -/
theorem advance_tx (accept : Bool) (now : Nat) (s : System) :
    (advance accept now s).canTp.tx =
      (CanTp.advanceTx accept Stamp.value ⟨now, s.time⟩ s.canTp.tx).1 ∧
    (advance accept now s).queued =
      s.queued ++ (CanTp.advanceTx accept Stamp.value ⟨now, s.time⟩ s.canTp.tx).2 :=
  ⟨rfl, rfl⟩

theorem advanceTx_waitFc {tx : CanTp.Tx Stamp} (h : tx.state = .waitFc) (accept : Bool)
    (last : Stamp) : (CanTp.advanceTx accept Stamp.value last tx).2 = [] ∧
      ((CanTp.advanceTx accept Stamp.value last tx).1.state = .idle ↔
        CanTp.NBsExpired Stamp.value last tx) := by
  unfold CanTp.advanceTx
  by_cases hexpired : CanTp.NBsExpired Stamp.value last tx
  · have hdue : ¬ CanTp.CfDue Stamp.value last (CanTp.resetTx tx) :=
      fun hdue => CanTp.TxState.noConfusion hdue.1
    simp only [if_pos hexpired, if_neg hdue]
    exact ⟨trivial, fun _ => hexpired, fun _ => rfl⟩
  · have hdue : ¬ CanTp.CfDue Stamp.value last tx := fun hdue => by
      have hsend := hdue.1
      rw [h] at hsend
      cases hsend
    simp only [if_neg hexpired, if_neg hdue]
    refine ⟨trivial, fun hidle => ?_, fun hout => absurd hout hexpired⟩
    rw [h] at hidle
    cases hidle

theorem advanceTx_not_waitFc {tx : CanTp.Tx Stamp} (h : tx.state ≠ .waitFc) (accept : Bool)
    (last : Stamp) : (CanTp.advanceTx accept Stamp.value last tx).2 ≠ [] ↔
      accept = true ∧ CanTp.CfDue Stamp.value last tx := by
  unfold CanTp.advanceTx
  have hexpired : ¬ CanTp.NBsExpired Stamp.value last tx := fun hout => h hout.1
  simp only [if_neg hexpired]
  by_cases hdue : CanTp.CfDue Stamp.value last tx
  · rw [if_pos hdue]
    cases accept with
    | false => exact ⟨fun hne => absurd rfl hne, fun hboth => absurd hboth.1 (by decide)⟩
    | true => exact ⟨fun _ => ⟨rfl, hdue⟩, fun _ => List.cons_ne_nil _ _⟩
  · rw [if_neg hdue]
    exact ⟨fun hne => absurd rfl hne, fun hboth => absurd hboth.2 hdue⟩

/-- With a tick that does for every timer, nothing comes too early. -/
theorem InTime.notEarly (h : InTime now s) (accept : Bool) : NotEarly s (advance accept now s) := by
  obtain ⟨htx, hqueued⟩ := advance_tx accept now s
  refine ⟨fun hwait hidle => ?_, fun hwait hidle => ?_, fun hqueue => ?_⟩
  · rw [advance_rx] at hidle
    split at hidle
    · rename_i hexpired
      exact (h.nCr hwait).stored_le hexpired.2
    · rw [hwait] at hidle
      cases hidle
  · rw [htx] at hidle
    have hexpired := ((advanceTx_waitFc hwait accept _).2).1 hidle
    exact (h.nBs hwait).stored_le hexpired.2
  · rw [hqueued] at hqueue
    have hsent : (CanTp.advanceTx accept Stamp.value ⟨now, s.time⟩ s.canTp.tx).2 ≠ [] :=
      fun hnil => hqueue (by rw [hnil, List.append_nil])
    have hstate : s.canTp.tx.state ≠ .waitFc :=
      fun hwait => hsent (advanceTx_waitFc hwait accept _).1
    have hdue := ((advanceTx_not_waitFc hstate accept _).1 hsent).2
    exact (h.stmin hdue.1).stored_le hdue.2

/-- With one that does not, something does, if the queue takes the frame. -/
theorem InTime.of_notEarly (hclock : Clocked s) (hnext : s.next = .advancing now)
    (hrecent : s.canTp.Ticks Stamp.Recent) (hround : s.time + 1000 ≤ now + 2 ^ 32)
    (h : NotEarly s (advance true now s)) : InTime now s := by
  obtain ⟨htx, hqueued⟩ := advance_tx true now s
  have hnow := hclock.sampled now hnext
  refine ⟨fun hwait => ?_, fun hwait => ?_, fun hsend => ?_⟩
  · by_contra hno
    have hout := elapsed_of_not_judges hno hclock.ticks.rxActivity hnow hrecent.rxActivity hround
    have hidle := advance_rx true now s
    rw [if_pos ⟨hwait, hout⟩] at hidle
    exact hno (.inl (h.nCr hwait hidle))
  · by_contra hno
    have hout := elapsed_of_not_judges hno hclock.ticks.txActivity hnow hrecent.txActivity hround
    have hidle := ((advanceTx_waitFc hwait true ⟨now, s.time⟩).2).2 ⟨hwait, hout⟩
    rw [← htx] at hidle
    exact hno (.inl (h.nBs hwait hidle))
  · by_contra hno
    have hbyte := s.canTp.tx.stminMs.isLt
    have hcf := hrecent.txCf
    unfold Stamp.Recent at hcf
    have hout := elapsed_of_not_judges hno hclock.ticks.txCf hnow (by omega) (by omega)
    have hstate : s.canTp.tx.state ≠ .waitFc := fun hwait => by
      rw [hwait] at hsend
      cases hsend
    have hsent := (advanceTx_not_waitFc hstate true ⟨now, s.time⟩).2 ⟨rfl, hsend, hout⟩
    refine hno (.inl (h.stmin fun hsame => hsent ?_))
    rw [hqueued] at hsame
    exact List.append_right_eq_self.1 hsame

/-- In a run whose critical sections are all entered with a tick that still does, no timeout and no
    consecutive frame comes too early.  With a tick that does not, and no tick held back for a whole
    round of the counter, something comes too early. -/
theorem timeouts_in_time (time : Nat) (dcm : Dcm.State) (events : List Event) :
    ((∀ n e now, events[n]? = some e → Enters e (run (events.take n) (start time dcm)) now →
        InTime now (run (events.take n) (start time dcm))) →
      ∀ n e now, events[n]? = some e → Enters e (run (events.take n) (start time dcm)) now →
        NotEarly (run (events.take n) (start time dcm))
          (step e (run (events.take n) (start time dcm)))) ∧
    ∀ n now readings, events[n]? = some (.diag true readings) →
      (run (events.take n) (start time dcm)).next = .advancing now →
      (run (events.take n) (start time dcm)).canTp.Ticks Stamp.Recent →
      (run (events.take n) (start time dcm)).time + 1000 ≤ now + 2 ^ 32 →
      NotEarly (run (events.take n) (start time dcm))
        (step (.diag true readings) (run (events.take n) (start time dcm))) →
      InTime now (run (events.take n) (start time dcm)) := by
  constructor
  · intro h n e now hget henters
    have hintime := h n e now hget henters
    obtain ⟨⟨accept, readings, rfl⟩, hnext⟩ := henters
    rw [step_diag_advancing hnext]
    exact hintime.notEarly accept
  · intro n now readings _ hnext hrecent hround hearly
    rw [step_diag_advancing hnext] at hearly
    exact InTime.of_notEarly (clocked_run _ time dcm) hnext hrecent hround hearly

/-! ## On a request of ten bytes -/

def someReadings : Dcm.Readings := ⟨.a, 0x02000000, 0, 0, 0, 0⟩

def initialDcm : Dcm.State := ⟨.default, 0, ⟨0, 0⟩, Dem.State.startup⟩

/-- The first frame of a request. -/
def requestFirstFrame : CanFrame :=
  ⟨CanTp.udsRequestId, 8, fun j => [0x10, 0x0A, 0x22, 0xF1, 0x90, 0xF1, 0x00, 0xF1].getD j 0⟩

/-- A request for the identification number, in a single frame. -/
def vinRequest : CanFrame :=
  ⟨CanTp.udsRequestId, 8, fun j => [0x03, 0x22, 0xF1, 0x90].getD j 0⟩

def diagGoesOn : Event := .diag true someReadings

/-- The response to it is on its way, and the tester asks for two milliseconds between the frames. -/
def spacedFrames : List Event :=
  [.receive true vinRequest, diagGoesOn, diagGoesOn, diagGoesOn,
    .receive true (CanTp.testerControl CanTp.fcStatusCts 0 2), diagGoesOn, .tick, .tick, diagGoesOn,
    diagGoesOn]

/-- The separation time is over, the next frame is queued, and that is not too early. -/
theorem timeouts_in_time_spaced :
    (run spacedFrames (start 5 initialDcm)).queued ≠
      (run (spacedFrames.take 9) (start 5 initialDcm)).queued ∧
    NotEarly (run (spacedFrames.take 9) (start 5 initialDcm))
      (run spacedFrames (start 5 initialDcm)) := by
  refine ⟨by decide, (timeouts_in_time 5 initialDcm spacedFrames).1 ?_ 9 diagGoesOn 7 rfl
    ⟨⟨_, _, rfl⟩, rfl⟩⟩
  intro n e now hget henters
  obtain ⟨hn, -⟩ := List.getElem?_eq_some_iff.1 hget
  have hnext := henters.2
  have hten : spacedFrames.length = 10 := rfl
  rw [hten] at hn
  have hnine : n = 9 := by
    by_contra hne
    interval_cases n <;> first | exact hne rfl | cases hnext
  subst hnine
  cases hnext
  refine ⟨fun hwait => ?_, fun hwait => ?_, fun _ => .inl (by decide)⟩
  · exact absurd hwait (by decide)
  · exact absurd hwait (by decide)

/-- A first frame that comes in the tick after the one that was read is given up at once. -/
theorem early_abort : ¬ ∀ (time : Nat) (dcm : Dcm.State) (events : List Event) (n : Nat) (e : Event)
    (now : Nat), events[n]? = some e → Enters e (run (events.take n) (start time dcm)) now →
      NotEarly (run (events.take n) (start time dcm))
        (step e (run (events.take n) (start time dcm))) := by
  intro h
  have hearly := h 5 initialDcm [.diag true someReadings, .diag true someReadings, .tick,
    .receive true requestFirstFrame, .diag true someReadings] 4 (.diag true someReadings) 5 rfl
    ⟨⟨_, _, rfl⟩, rfl⟩
  exact absurd (hearly.nCr (by decide) (by decide)) (by decide)

end AppRTOS
