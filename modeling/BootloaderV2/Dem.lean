import BootloaderV2.Lib.Words
import Mathlib.Tactic.FinCases

/-!
# Diagnostic events of the application

`Dem.c` and `Dem_Cfg.c`: debounced events and their trouble codes, and what becomes of a confirmed
fault under the reports that follow.  Every function holds the critical section for as long as it
touches the table, so a run is a sequence of calls.
-/

namespace Dem

inductive DemEventStatusType where
  | passed | failed
  deriving DecidableEq, Repr

structure DtcInfo where
  code : Word
  active : Byte
  stored : Byte
  level : Byte
  occurrenceCounter : Byte
  status : Byte
  deriving DecidableEq, Repr

structure DemEventConfig where
  eventId : Byte
  dtc : Word
  failThreshold : Byte
  passThreshold : Byte
  level : Byte
  deriving DecidableEq, Repr

structure DemEventRuntime where
  dtc : DtcInfo
  failCounter : Byte
  passCounter : Byte
  deriving DecidableEq, Repr

def statusTestFailed : Byte := 0x01
def statusPendingDtc : Byte := 0x04
def statusConfirmedDtc : Byte := 0x08

def controlTimeoutMs : Nat := 5000

def eventCoolantOverTemp : Byte := 0
def eventVehicleSpeedAbnormal : Byte := 1
def eventControlTimeout : Byte := 2

/-- The events, with whatever identifiers and thresholds a configuration has. -/
abbrev Table : Type := Fin 3 → DemEventConfig

/-- `DemEventConfigs`. -/
def eventConfigs : Table
  | 0 => ⟨eventCoolantOverTemp, 0x000101, 3, 3, 3⟩
  | 1 => ⟨eventVehicleSpeedAbnormal, 0x000201, 3, 3, 2⟩
  | 2 => ⟨eventControlTimeout, 0x000301, 1, 1, 2⟩

/-- The static variables; a tick lasts a millisecond. -/
structure State where
  eventRuntime : Fin 3 → DemEventRuntime
  lastControlHeartbeatTick : Word
  controlTimeoutMonitoringEnabled : Bool

def Table.findEventIndex (configs : Table) (eventId : Byte) : Option (Fin 3) :=
  (List.finRange 3).find? fun index => (configs index).eventId == eventId

def findEventIndex (eventId : Byte) : Option (Fin 3) := eventConfigs.findEventIndex eventId

def reportFailed (config : DemEventConfig) (runtime : DemEventRuntime) : DemEventRuntime :=
  let failCounter :=
    if runtime.failCounter < config.failThreshold then runtime.failCounter + 1
    else runtime.failCounter
  if failCounter < config.failThreshold then
    { runtime with
      passCounter := 0
      failCounter := failCounter
      dtc := { runtime.dtc with level := config.level, status := statusPendingDtc } }
  else
    { runtime with
      passCounter := 0
      failCounter := failCounter
      dtc := { runtime.dtc with
        level := config.level
        occurrenceCounter :=
          if runtime.dtc.active = 0 ∧ runtime.dtc.occurrenceCounter < 0xFF then
            runtime.dtc.occurrenceCounter + 1
          else runtime.dtc.occurrenceCounter
        active := 1
        stored := 1
        status := statusTestFailed ||| statusPendingDtc ||| statusConfirmedDtc } }

def reportPassed (config : DemEventConfig) (runtime : DemEventRuntime) : DemEventRuntime :=
  let passCounter :=
    if runtime.passCounter < config.passThreshold then runtime.passCounter + 1
    else runtime.passCounter
  let runtime := { runtime with failCounter := 0, passCounter := passCounter }
  if passCounter < config.passThreshold then runtime
  else if runtime.dtc.status &&& statusConfirmedDtc ≠ 0 then
    { runtime with
      dtc := { runtime.dtc with active := 0, stored := 1, status := statusConfirmedDtc } }
  else
    { runtime with dtc := { runtime.dtc with active := 0, stored := 0, status := 0, level := 0 } }

def report (config : DemEventConfig) : DemEventStatusType → DemEventRuntime → DemEventRuntime
  | .failed => reportFailed config
  | .passed => reportPassed config

/-- `Dem_SetEventStatus`; an event that is not configured is ignored. -/
def Table.setEventStatus (configs : Table) (eventId : Byte) (status : DemEventStatusType)
    (s : State) : State :=
  match configs.findEventIndex eventId with
  | none => s
  | some index =>
    { s with eventRuntime := fun i =>
        if i = index then report (configs i) status (s.eventRuntime i) else s.eventRuntime i }

def setEventStatus (eventId : Byte) (status : DemEventStatusType) (s : State) : State :=
  eventConfigs.setEventStatus eventId status s

/-- What `Dem_MainFunction` reports for the heartbeat of the control unit. -/
def controlTimeoutStatus (now : Word) (s : State) : DemEventStatusType :=
  if controlTimeoutMs ≤ (now - s.lastControlHeartbeatTick).toNat then .failed else .passed

def mainFunction (now : Word) (s : State) : State :=
  if s.controlTimeoutMonitoringEnabled then
    setEventStatus eventControlTimeout (controlTimeoutStatus now s) s
  else s

def controlTimeoutStart (now : Word) (s : State) : State :=
  setEventStatus eventControlTimeout .passed
    { s with lastControlHeartbeatTick := now, controlTimeoutMonitoringEnabled := true }

def controlTimeoutStop (s : State) : State :=
  setEventStatus eventControlTimeout .passed { s with controlTimeoutMonitoringEnabled := false }

def controlHeartbeatReceived (now : Word) (s : State) : State :=
  if s.controlTimeoutMonitoringEnabled then { s with lastControlHeartbeatTick := now } else s

/-- `Dem_ClearDTC`. -/
def Table.clearDtc (configs : Table) (s : State) : State :=
  { s with eventRuntime := fun i => ⟨⟨(configs i).dtc, 0, 0, 0, 0, 0⟩, 0, 0⟩ }

def clearDtc (s : State) : State := eventConfigs.clearDtc s

def init (now : Word) (s : State) : State :=
  clearDtc { s with lastControlHeartbeatTick := now, controlTimeoutMonitoringEnabled := false }

/-- `Dem_GetDTCByStatusMask`: the next matching code, and the cursor behind it. -/
def getDtcByStatusMask (statusMask cursor : Byte) (s : State) : Option DtcInfo × Byte :=
  match (List.finRange 3).find? fun index =>
      decide (cursor.toNat ≤ index.val) && (s.eventRuntime index).dtc.status &&& statusMask != 0 with
  | some index => (some (s.eventRuntime index).dtc, BitVec.ofNat 8 (index.val + 1))
  | none => (none, 3)

/-- The codes that a caller collects who starts at `cursor` and calls until there is no further one;
    a call more than there are events is enough. -/
def collect (statusMask : Byte) (s : State) : Nat → Byte → List DtcInfo
  | 0, _ => []
  | fuel + 1, cursor =>
    match getDtcByStatusMask statusMask cursor s with
    | (some dtc, next) => dtc :: collect statusMask s fuel next
    | (none, _) => []

def reportedDtcs (statusMask : Byte) (s : State) : List DtcInfo := collect statusMask s 4 0

/-! ## One event -/

namespace DemEventRuntime

variable {config : DemEventConfig} {runtime : DemEventRuntime}

def Confirmed (runtime : DemEventRuntime) : Prop := runtime.dtc.status &&& statusConfirmedDtc ≠ 0

def TestFailed (runtime : DemEventRuntime) : Prop := runtime.dtc.status &&& statusTestFailed ≠ 0

instance : Decidable runtime.Confirmed := inferInstanceAs (Decidable (_ ≠ _))

instance : Decidable runtime.TestFailed := inferInstanceAs (Decidable (_ ≠ _))

/-- An active fault is failed and confirmed, and a confirmed one is stored. -/
structure Sound (config : DemEventConfig) (runtime : DemEventRuntime) : Prop where
  code : runtime.dtc.code = config.dtc
  active : runtime.dtc.active = 1 → runtime.TestFailed ∧ runtime.Confirmed
  stored : runtime.Confirmed → runtime.dtc.stored = 1

/-- A failure that starts a new round of debouncing on a confirmed fault. -/
def Lapses (config : DemEventConfig) (status : DemEventStatusType) (runtime : DemEventRuntime) :
    Prop :=
  status = .failed ∧ runtime.Confirmed ∧
    runtime.failCounter.toNat + 1 < config.failThreshold.toNat

/-- The fail counter stops at its threshold. -/
theorem failCounter_lt {f t : Byte} :
    (if f < t then f + 1 else f) < t ↔ f.toNat + 1 < t.toNat := by
  have ht := t.isLt
  split
  · rename_i h
    rw [BitVec.lt_def] at h
    rw [BitVec.lt_def, BitVec.toNat_add, show (1 : Byte).toNat = 1 from rfl,
      Nat.mod_eq_of_lt (by omega)]
  · rename_i h
    rw [BitVec.lt_def] at h ⊢
    omega

/-- Below the threshold a failure leaves the fault pending, and nothing but that. -/
theorem reportFailed_pending (h : runtime.failCounter.toNat + 1 < config.failThreshold.toNat) :
    (reportFailed config runtime).dtc =
      { runtime.dtc with level := config.level, status := statusPendingDtc } := by
  unfold reportFailed
  dsimp only
  rw [if_pos (failCounter_lt.2 h)]

/-- At the threshold it is failed, pending and confirmed. -/
theorem reportFailed_confirmed (h : ¬ runtime.failCounter.toNat + 1 < config.failThreshold.toNat) :
    (reportFailed config runtime).dtc.code = runtime.dtc.code ∧
    (reportFailed config runtime).dtc.stored = 1 ∧
    (reportFailed config runtime).TestFailed ∧ (reportFailed config runtime).Confirmed := by
  unfold reportFailed
  dsimp only
  rw [if_neg (mt failCounter_lt.1 h)]
  refine ⟨rfl, rfl, ?_, ?_⟩
  · show (statusTestFailed ||| statusPendingDtc ||| statusConfirmedDtc) &&& statusTestFailed ≠ 0
    decide
  · show (statusTestFailed ||| statusPendingDtc ||| statusConfirmedDtc) &&& statusConfirmedDtc ≠ 0
    decide

/-- A pass leaves the code alone, or heals the fault and keeps what is confirmed. -/
theorem reportPassed_cases (config : DemEventConfig) (runtime : DemEventRuntime) :
    (reportPassed config runtime).dtc = runtime.dtc ∨
    ((reportPassed config runtime).dtc.code = runtime.dtc.code ∧
      (reportPassed config runtime).dtc.active = 0 ∧
      ((runtime.Confirmed ∧ (reportPassed config runtime).Confirmed ∧
          (reportPassed config runtime).dtc.stored = 1) ∨
        (¬ runtime.Confirmed ∧ ¬ (reportPassed config runtime).Confirmed))) := by
  unfold reportPassed
  dsimp only
  generalize (if runtime.passCounter < config.passThreshold then runtime.passCounter + 1
    else runtime.passCounter) = passCounter
  split
  · exact .inl rfl
  · right
    split
    · rename_i hc
      refine ⟨rfl, rfl, .inl ⟨hc, ?_, rfl⟩⟩
      show statusConfirmedDtc &&& statusConfirmedDtc ≠ 0
      decide
    · rename_i hc
      refine ⟨rfl, rfl, .inr ⟨hc, ?_⟩⟩
      show ¬ (0 : Byte) &&& statusConfirmedDtc ≠ 0
      decide

/-- What is pending only is neither failed nor confirmed. -/
theorem not_confirmed_pending {dtc : DtcInfo} (h : runtime.dtc = { dtc with
    level := config.level, status := statusPendingDtc }) : ¬ runtime.Confirmed := by
  unfold Confirmed
  rw [h]
  show ¬ statusPendingDtc &&& statusConfirmedDtc ≠ 0
  decide

/-- Such a failure takes the confirmation back. -/
theorem Lapses.report {status : DemEventStatusType} (h : Lapses config status runtime) :
    ¬ (report config status runtime).Confirmed := by
  obtain ⟨rfl, -, hlt⟩ := h
  exact not_confirmed_pending (reportFailed_pending hlt)

/-- Every other report keeps it. -/
theorem Confirmed.report {status : DemEventStatusType} (h : runtime.Confirmed)
    (hl : ¬ Lapses config status runtime) : (report config status runtime).Confirmed := by
  cases status with
  | failed =>
    have hreached : ¬ runtime.failCounter.toNat + 1 < config.failThreshold.toNat :=
      fun hlt => hl ⟨rfl, h, hlt⟩
    exact (reportFailed_confirmed hreached).2.2.2
  | passed =>
    rcases reportPassed_cases config runtime with heq | ⟨-, -, ⟨-, hc, -⟩ | ⟨hno, -⟩⟩
    · unfold Confirmed
      rw [show Dem.report config .passed runtime = reportPassed config runtime from rfl, heq]
      exact h
    · exact hc
    · exact absurd h hno

theorem Sound.report {status : DemEventStatusType} (h : Sound config runtime)
    (hl : ¬ Lapses config status runtime) : Sound config (report config status runtime) := by
  cases status with
  | failed =>
    by_cases hlt : runtime.failCounter.toNat + 1 < config.failThreshold.toNat
    · -- a fault that is debounced is not confirmed, so it is not active either
      have hno : ¬ runtime.Confirmed := fun hc => hl ⟨rfl, hc, hlt⟩
      have hdtc := reportFailed_pending hlt
      refine ⟨?_, fun ha => ?_, fun hc => absurd hc (not_confirmed_pending hdtc)⟩
      · rw [show Dem.report config .failed runtime = reportFailed config runtime from rfl, hdtc]
        exact h.code
      · rw [show Dem.report config .failed runtime = reportFailed config runtime from rfl, hdtc] at ha
        exact absurd (h.active ha).2 hno
    · obtain ⟨hcode, hstored, hfailed, hconfirmed⟩ := reportFailed_confirmed hlt
      exact ⟨hcode.trans h.code, fun _ => ⟨hfailed, hconfirmed⟩, fun _ => hstored⟩
  | passed =>
    rcases reportPassed_cases config runtime with heq | ⟨hcode, hactive, hstored⟩
    · have hkeep : ∀ {p : DtcInfo → Prop}, p runtime.dtc →
          p (Dem.report config .passed runtime).dtc := fun hp => by
        rw [show Dem.report config .passed runtime = reportPassed config runtime from rfl, heq]
        exact hp
      exact ⟨hkeep (p := fun d => d.code = config.dtc) h.code,
        hkeep (p := fun d => d.active = 1 → d.status &&& statusTestFailed ≠ 0 ∧
          d.status &&& statusConfirmedDtc ≠ 0) h.active,
        hkeep (p := fun d => d.status &&& statusConfirmedDtc ≠ 0 → d.stored = 1) h.stored⟩
    · refine ⟨hcode.trans h.code, fun ha => ?_, fun hc => ?_⟩
      · rw [show Dem.report config .passed runtime = reportPassed config runtime from rfl,
          hactive] at ha
        exact absurd ha (by decide)
      · rcases hstored with ⟨-, -, hs⟩ | ⟨-, hno⟩
        · exact hs
        · exact absurd hc hno

theorem sound_cleared (config : DemEventConfig) :
    Sound config ⟨⟨config.dtc, 0, 0, 0, 0, 0⟩, 0, 0⟩ := by
  refine ⟨rfl, fun h => ?_, fun h => ?_⟩
  · exact absurd (show (0 : Byte) = 1 from h) (by decide)
  · exact absurd (show (0 : Byte) &&& statusConfirmedDtc ≠ 0 from h) (by decide)

end DemEventRuntime

/-- A report goes to the event with its identifier and to no other. -/
theorem Table.eventRuntime_setEventStatus (configs : Table) (eventId : Byte)
    (status : DemEventStatusType) (s : State) (i : Fin 3) :
    (configs.setEventStatus eventId status s).eventRuntime i =
      if configs.findEventIndex eventId = some i then report (configs i) status (s.eventRuntime i)
      else s.eventRuntime i := by
  unfold setEventStatus
  cases configs.findEventIndex eventId with
  | none => simp
  | some index =>
    dsimp only
    by_cases h : i = index
    · rw [if_pos h, if_pos (by rw [h])]
    · rw [if_neg h, if_neg (by simpa using fun h' : index = i => h h'.symm)]

/-! ## The codes that are reported -/

/-- Each event whose status matches is reported, in the order of the table. -/
theorem reportedDtcs_eq (statusMask : Byte) (s : State) : reportedDtcs statusMask s =
    ((List.finRange 3).filter fun i => (s.eventRuntime i).dtc.status &&& statusMask != 0).map
      fun i => (s.eventRuntime i).dtc := by
  unfold reportedDtcs
  simp only [collect, getDtcByStatusMask]
  generalize hp : (fun i => (s.eventRuntime i).dtc.status &&& statusMask != 0) = p
  have hp' : ∀ i, ((s.eventRuntime i).dtc.status &&& statusMask != 0) = p i := fun i => by rw [← hp]
  simp only [hp', show List.finRange 3 = [0, 1, 2] from rfl]
  cases h0 : p 0 <;> cases h1 : p 1 <;> cases h2 : p 2 <;>
    simp [List.find?, h0, h1, h2]

theorem mem_reportedDtcs {statusMask : Byte} {s : State} {i : Fin 3}
    (h : (s.eventRuntime i).dtc.status &&& statusMask ≠ 0) :
    (s.eventRuntime i).dtc ∈ reportedDtcs statusMask s := by
  rw [reportedDtcs_eq, List.mem_map]
  refine ⟨i, List.mem_filter.2 ⟨List.mem_finRange i, ?_⟩, rfl⟩
  simpa using h

/-! ## Runs -/

/-- The calls of the application between two clearings. -/
inductive Call where
  | setEventStatus (eventId : Byte) (status : DemEventStatusType)
  | mainFunction (now : Word)
  | controlTimeoutStart (now : Word)
  | controlTimeoutStop
  | controlHeartbeatReceived (now : Word)
  deriving DecidableEq, Repr

namespace Call

def exec : Call → State → State
  | setEventStatus eventId status => Dem.setEventStatus eventId status
  | mainFunction now => Dem.mainFunction now
  | controlTimeoutStart now => Dem.controlTimeoutStart now
  | controlTimeoutStop => Dem.controlTimeoutStop
  | controlHeartbeatReceived now => Dem.controlHeartbeatReceived now

/-- The report that the call comes down to. -/
def report : Call → State → Option (Byte × DemEventStatusType)
  | setEventStatus eventId status, _ => some (eventId, status)
  | mainFunction now, s =>
    if s.controlTimeoutMonitoringEnabled then some (eventControlTimeout, controlTimeoutStatus now s)
    else none
  | controlTimeoutStart _, _ => some (eventControlTimeout, .passed)
  | controlTimeoutStop, _ => some (eventControlTimeout, .passed)
  | controlHeartbeatReceived _, _ => none

/-- The status that event `i` is given. -/
def statusFor (c : Call) (s : State) (i : Fin 3) : Option DemEventStatusType :=
  match c.report s with
  | some (eventId, status) => if findEventIndex eventId = some i then some status else none
  | none => none

/-- The call reports a failure of event `i` that starts to be debounced on a confirmed fault. -/
def Lapses (c : Call) (s : State) (i : Fin 3) : Prop :=
  ∃ status, c.statusFor s i = some status ∧
    DemEventRuntime.Lapses (eventConfigs i) status (s.eventRuntime i)

theorem Lapses.confirmed {c : Call} {s : State} {i : Fin 3} (h : c.Lapses s i) :
    (s.eventRuntime i).Confirmed := by
  obtain ⟨status, -, -, hc, -⟩ := h
  exact hc

/-- The heartbeat is debounced by its timer alone, so its first failure confirms it. -/
theorem not_lapses_controlTimeout {c : Call} {s : State} : ¬ c.Lapses s 2 := by
  rintro ⟨status, -, -, -, hlt⟩
  have hthreshold : (eventConfigs 2).failThreshold.toNat = 1 := rfl
  omega

theorem exec_of_report {c : Call} {s s' : State} {eventId : Byte} {status : DemEventStatusType}
    {i : Fin 3} (hs' : s'.eventRuntime = s.eventRuntime) (hreport : c.report s = some (eventId, status))
    (hexec : c.exec s = Dem.setEventStatus eventId status s') :
    (c.exec s).eventRuntime i =
      match c.statusFor s i with
      | some status => Dem.report (eventConfigs i) status (s.eventRuntime i)
      | none => s.eventRuntime i := by
  have hruntime : (Dem.setEventStatus eventId status s').eventRuntime i =
      if findEventIndex eventId = some i then Dem.report (eventConfigs i) status (s'.eventRuntime i)
      else s'.eventRuntime i := Table.eventRuntime_setEventStatus _ _ _ _ _
  unfold statusFor
  rw [hexec, hreport, hruntime, hs']
  by_cases hi : findEventIndex eventId = some i
  · simp only [hi, if_true]
  · simp only [hi, if_false]

/-- An event gets the one report that is meant for it, and is left alone otherwise. -/
theorem eventRuntime_exec (c : Call) (s : State) (i : Fin 3) :
    (c.exec s).eventRuntime i =
      match c.statusFor s i with
      | some status => Dem.report (eventConfigs i) status (s.eventRuntime i)
      | none => s.eventRuntime i := by
  cases c with
  | setEventStatus eventId status => exact exec_of_report rfl rfl rfl
  | mainFunction now =>
    cases hm : s.controlTimeoutMonitoringEnabled with
    | true =>
      have hs : s.eventRuntime = s.eventRuntime := rfl
      apply exec_of_report hs
      · exact if_pos hm
      · exact if_pos hm
    | false =>
      have hreport : (mainFunction now).report s = none := if_neg (by rw [hm]; decide)
      have hexec : (mainFunction now).exec s = s := if_neg (by rw [hm]; decide)
      unfold statusFor
      rw [hreport, hexec]
  | controlTimeoutStart now => exact @exec_of_report _ _ { s with
      lastControlHeartbeatTick := now, controlTimeoutMonitoringEnabled := true } _ _ _ rfl rfl rfl
  | controlTimeoutStop =>
    exact @exec_of_report _ _ { s with controlTimeoutMonitoringEnabled := false } _ _ _ rfl rfl rfl
  | controlHeartbeatReceived now =>
    show (Dem.controlHeartbeatReceived now s).eventRuntime i = s.eventRuntime i
    unfold Dem.controlHeartbeatReceived
    split <;> rfl

end Call

namespace State

def Confirmed (s : State) (i : Fin 3) : Prop := (s.eventRuntime i).Confirmed

instance (s : State) (i : Fin 3) : Decidable (s.Confirmed i) :=
  inferInstanceAs (Decidable (s.eventRuntime i).Confirmed)

def Sound (s : State) : Prop := ∀ i, DemEventRuntime.Sound (eventConfigs i) (s.eventRuntime i)

variable {s : State} {c : Call} {i : Fin 3}

theorem sound_clearDtc (s : State) : (clearDtc s).Sound :=
  fun i => DemEventRuntime.sound_cleared (eventConfigs i)

/-- One call keeps the table sound, unless it lapses. -/
theorem Sound.exec (h : s.Sound) (hl : ∀ i, ¬ c.Lapses s i) : (c.exec s).Sound := by
  intro i
  have heq := c.eventRuntime_exec s i
  cases hstatus : c.statusFor s i with
  | none =>
    rw [hstatus] at heq
    rw [heq]
    exact h i
  | some status =>
    rw [hstatus] at heq
    rw [heq]
    exact (h i).report fun hlapse => hl i ⟨status, hstatus, hlapse⟩

/-- One call keeps a confirmed fault confirmed exactly when it does not lapse. -/
theorem confirmed_exec_iff (h : s.Confirmed i) : (c.exec s).Confirmed i ↔ ¬ c.Lapses s i := by
  have heq := c.eventRuntime_exec s i
  unfold Confirmed Call.Lapses
  cases hstatus : c.statusFor s i with
  | none =>
    rw [hstatus] at heq
    rw [heq]
    exact ⟨fun _ => (by rintro ⟨_, hno, -⟩; cases hno), fun _ => h⟩
  | some status =>
    rw [hstatus] at heq
    rw [heq]
    constructor
    · rintro hc ⟨status', hstatus', hlapse⟩
      cases hstatus'
      exact hlapse.report hc
    · exact fun hl => DemEventRuntime.Confirmed.report h fun hlapse => hl ⟨status, rfl, hlapse⟩

/-- A confirmed fault of a sound table is stored and reported. -/
theorem Sound.reported (h : s.Sound) (hc : s.Confirmed i) : (s.eventRuntime i).dtc.stored = 1 ∧
    ∃ dtc ∈ reportedDtcs statusConfirmedDtc s, dtc.code = (eventConfigs i).dtc :=
  ⟨(h i).stored hc, _, mem_reportedDtcs hc, (h i).code⟩

end State

/-- The state after the calls. -/
def run (calls : List Call) (s : State) : State := calls.foldl (fun s c => c.exec s) s

theorem run_take_succ {calls : List Call} {n : Nat} {c : Call} {s : State}
    (h : calls[n]? = some c) : run (calls.take (n + 1)) s = c.exec (run (calls.take n) s) := by
  unfold run
  rw [List.take_add_one, h, Option.toList_some, List.foldl_append]
  rfl

/-- What is confirmed stays confirmed, stored and reported through the calls, and what is active is
    failed and confirmed. -/
structure Latched (calls : List Call) (s : State) : Prop where
  confirmed : ∀ i m n, m ≤ n → n ≤ calls.length → (run (calls.take m) s).Confirmed i →
    (run (calls.take n) s).Confirmed i ∧
    ((run (calls.take n) s).eventRuntime i).dtc.stored = 1 ∧
    ∃ dtc ∈ reportedDtcs statusConfirmedDtc (run (calls.take n) s), dtc.code = (eventConfigs i).dtc
  active : ∀ i n, n ≤ calls.length → ((run (calls.take n) s).eventRuntime i).dtc.active = 1 →
    ((run (calls.take n) s).eventRuntime i).TestFailed ∧ (run (calls.take n) s).Confirmed i

section Runs

variable {calls : List Call} {s : State}

/-- The calls in which nothing lapses keep the table sound. -/
theorem sound_run (hs : s.Sound)
    (hl : ∀ n (c : Call), calls[n]? = some c → ∀ i, ¬ c.Lapses (run (calls.take n) s) i) :
    ∀ n, n ≤ calls.length → (run (calls.take n) s).Sound := by
  intro n
  induction n with
  | zero => exact fun _ => hs
  | succ n ih =>
    intro hn
    have hget : calls[n]? = some calls[n] := List.getElem?_eq_getElem hn
    rw [run_take_succ hget]
    exact (ih (by omega)).exec (hl n _ hget)

theorem confirmed_run {m : Nat} {i : Fin 3}
    (hl : ∀ n (c : Call), calls[n]? = some c → ∀ i, ¬ c.Lapses (run (calls.take n) s) i)
    (hm : (run (calls.take m) s).Confirmed i) :
    ∀ n, m ≤ n → n ≤ calls.length → (run (calls.take n) s).Confirmed i := by
  intro n hle
  induction n, hle using Nat.le_induction with
  | base => exact fun _ => hm
  | succ n hle ih =>
    intro hn
    have hget : calls[n]? = some calls[n] := List.getElem?_eq_getElem hn
    rw [run_take_succ hget]
    exact (State.confirmed_exec_iff (ih (by omega))).2 (hl n _ hget i)

end Runs

/-- Since the last clearing, confirmed faults stay confirmed, and active faults are confirmed, if and
    only if no failure is debounced anew on a confirmed fault. -/
theorem latched_iff (calls : List Call) (s : State) : Latched calls (clearDtc s) ↔
    ∀ n (c : Call), calls[n]? = some c → ∀ i, ¬ c.Lapses (run (calls.take n) (clearDtc s)) i := by
  constructor
  · intro h n c hget i hlapse
    obtain ⟨hn, -⟩ := List.getElem?_eq_some_iff.1 hget
    have hkept := (h.confirmed i n (n + 1) (by omega) (by omega) hlapse.confirmed).1
    rw [run_take_succ hget] at hkept
    exact (State.confirmed_exec_iff hlapse.confirmed).1 hkept hlapse
  · intro hl
    have hsound := sound_run (State.sound_clearDtc s) hl
    refine ⟨fun i m n hmn hn hm => ?_, fun i n hn ha => (hsound n hn i).active ha⟩
    have hc := confirmed_run hl hm n hmn hn
    exact ⟨hc, (hsound n hn).reported hc⟩

/-- The variables as the start-up code leaves them. -/
def State.startup : State := ⟨fun _ => ⟨⟨0, 0, 0, 0, 0, 0⟩, 0, 0⟩, 0, false⟩

/-- Three failures confirm the coolant fault; a pass and a failure leave it pending and active. -/
theorem not_latched_coolant : ¬ Latched
    [.setEventStatus eventCoolantOverTemp .failed, .setEventStatus eventCoolantOverTemp .failed,
      .setEventStatus eventCoolantOverTemp .failed, .setEventStatus eventCoolantOverTemp .passed,
      .setEventStatus eventCoolantOverTemp .failed] (clearDtc (init 0 State.startup)) := by
  intro h
  have hconfirmed := (h.confirmed 0 3 5 (by decide) (by decide) (by decide)).1
  exact absurd hconfirmed (by decide)

end Dem
