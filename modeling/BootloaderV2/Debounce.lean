import BootloaderV2.Dem
import BootloaderV2.Lib.Hysteresis

/-!
# What the counters of an event remember

`Dem.c` over a table with any thresholds.  The two counters of an event are the length of the last
run of equal reports, cut off at the thresholds; its active flag is the hysteresis of the whole
history since the codes were cleared.
-/

namespace Dem

open Hysteresis

namespace Table

/-- The calls of `Dem_SetEventStatus`, one after the other. -/
def setAll (configs : Table) : List (Byte × DemEventStatusType) → State → State
  | [], s => s
  | (eventId, status) :: calls, s => configs.setAll calls (configs.setEventStatus eventId status s)

/-- What was reported on event `i`. -/
def history (configs : Table) (i : Fin 3) (calls : List (Byte × DemEventStatusType)) :
    List DemEventStatusType :=
  calls.filterMap fun c => if configs.findEventIndex c.1 = some i then some c.2 else none

/-- How often the active flag of event `i` changes from 0 to 1 in the calls. -/
def onsets (configs : Table) (i : Fin 3) : List (Byte × DemEventStatusType) → State → Nat
  | [], _ => 0
  | (eventId, status) :: calls, s =>
    let s' := configs.setEventStatus eventId status s
    (if (s.eventRuntime i).dtc.active = 0 ∧ (s'.eventRuntime i).dtc.active = 1 then 1 else 0) +
      configs.onsets i calls s'

example : ∀ i, eventConfigs.findEventIndex (eventConfigs i).eventId = some i := by decide

end Table

namespace DemEventRuntime

variable {config : DemEventConfig} {runtime : DemEventRuntime}
  {past : List DemEventStatusType} {onsets : Nat}

/-- The history of the event calls for an active fault. -/
def Raised (config : DemEventConfig) (past : List DemEventStatusType) : Prop :=
  Hysteresis.Raised .failed .passed config.failThreshold.toNat config.passThreshold.toNat past

/-- What the event has of its history, in which the fault became active `onsets` times. -/
structure Remembers (config : DemEventConfig) (past : List DemEventStatusType) (onsets : Nat)
    (runtime : DemEventRuntime) : Prop where
  failCounter : runtime.failCounter.toNat = min (streak .failed past) config.failThreshold.toNat
  passCounter : runtime.passCounter.toNat = min (streak .passed past) config.passThreshold.toNat
  active : (runtime.dtc.active = 1 ∧ Raised config past) ∨
    (runtime.dtc.active = 0 ∧ ¬ Raised config past)
  occurrences : runtime.dtc.occurrenceCounter.toNat = min onsets 255

/-- A counter that stops at its threshold counts the next report of its kind. -/
theorem toNat_saturate {count threshold : Byte} {n : Nat}
    (h : count.toNat = min n threshold.toNat) :
    (if count < threshold then count + 1 else count).toNat = min (n + 1) threshold.toNat := by
  have ht := threshold.isLt
  split
  · rename_i hlt
    rw [BitVec.lt_def] at hlt
    rw [BitVec.toNat_add, show (1 : Byte).toNat = 1 from rfl, Nat.mod_eq_of_lt (by omega)]
    omega
  · rename_i hlt
    rw [BitVec.lt_def] at hlt
    omega

theorem toNat_occurrences {count : Byte} {n : Nat} (h : count.toNat = min n 255) :
    (if count < 0xFF then count + 1 else count).toNat = min (n + 1) 255 :=
  toNat_saturate h

theorem remembers_cleared (hf : 0 < config.failThreshold) (code : Word) :
    Remembers config [] 0 ⟨⟨code, 0, 0, 0, 0, 0⟩, 0, 0⟩ := by
  refine ⟨?_, ?_, .inr ⟨rfl, not_raised_nil ?_⟩, rfl⟩
  · simp
  · simp
  · simpa [BitVec.lt_def] using hf

/-- The counters after a failure. -/
theorem reportFailed_counters (config : DemEventConfig) (runtime : DemEventRuntime) :
    (reportFailed config runtime).failCounter =
      (if runtime.failCounter < config.failThreshold then runtime.failCounter + 1
        else runtime.failCounter) ∧
    (reportFailed config runtime).passCounter = 0 := by
  unfold reportFailed
  dsimp only
  generalize (if runtime.failCounter < config.failThreshold then runtime.failCounter + 1
    else runtime.failCounter) = failCounter
  split
  · exact ⟨rfl, rfl⟩
  · exact ⟨rfl, rfl⟩

/-- Below the threshold a failure leaves the flag and the occurrences alone. -/
theorem Remembers.failed_pending (h : Remembers config past onsets runtime)
    (hp : 0 < config.passThreshold)
    (hlt : streak .failed past + 1 < config.failThreshold.toNat) :
    (reportFailed config runtime).dtc.active = runtime.dtc.active ∧
    (reportFailed config runtime).dtc.occurrenceCounter = runtime.dtc.occurrenceCounter ∧
    (Raised config (past ++ [.failed]) ↔ Raised config past) := by
  have hcounter := h.failCounter
  have hdtc := @reportFailed_pending config runtime (by omega)
  refine ⟨by rw [hdtc], by rw [hdtc], ?_⟩
  unfold Raised
  rw [raised_concat_up (by decide) (by simpa [BitVec.lt_def] using hp), streak_concat_self]
  constructor
  · intro hraised
    rcases hraised with hle | hraised
    · omega
    · exact hraised
  · exact .inr

/-- At the threshold it sets the flag, and counts an occurrence if the flag was not set. -/
theorem Remembers.failed_reached (h : Remembers config past onsets runtime)
    (hp : 0 < config.passThreshold)
    (hle : config.failThreshold.toNat ≤ streak .failed past + 1) :
    (reportFailed config runtime).dtc.active = 1 ∧
    (reportFailed config runtime).dtc.occurrenceCounter.toNat =
      min (onsets + if runtime.dtc.active = 0 then 1 else 0) 255 ∧
    Raised config (past ++ [.failed]) := by
  have hcounter := h.failCounter
  have hreached : ¬ (if runtime.failCounter < config.failThreshold then runtime.failCounter + 1
      else runtime.failCounter) < config.failThreshold := by
    rw [failCounter_lt]
    omega
  unfold reportFailed
  dsimp only
  rw [if_neg hreached]
  refine ⟨rfl, ?_, ?_⟩
  · dsimp only
    by_cases ha : runtime.dtc.active = 0
    · simp only [ha, true_and, if_true]
      exact toNat_occurrences h.occurrences
    · simp only [ha, false_and, if_false]
      exact h.occurrences
  · apply (raised_concat_up (by decide) (by simpa [BitVec.lt_def] using hp)).2
    rw [streak_concat_self]
    exact .inl hle

theorem Remembers.failed (h : Remembers config past onsets runtime)
    (hp : 0 < config.passThreshold) :
    Remembers config (past ++ [.failed])
      (onsets + if runtime.dtc.active = 0 ∧ (reportFailed config runtime).dtc.active = 1
        then 1 else 0) (reportFailed config runtime) := by
  obtain ⟨hfail, hpass⟩ := reportFailed_counters config runtime
  have hfail' : (reportFailed config runtime).failCounter.toNat =
      min (streak .failed (past ++ [.failed])) config.failThreshold.toNat := by
    rw [hfail, streak_concat_self]
    exact toNat_saturate h.failCounter
  have hpass' : (reportFailed config runtime).passCounter.toNat =
      min (streak .passed (past ++ [.failed])) config.passThreshold.toNat := by
    rw [hpass, streak_concat_of_ne (by decide)]
    simp
  by_cases hlt : streak .failed past + 1 < config.failThreshold.toNat
  · obtain ⟨hactive, hcount, hraised⟩ := h.failed_pending hp hlt
    have hsame : ¬ (runtime.dtc.active = 0 ∧ (reportFailed config runtime).dtc.active = 1) := by
      rw [hactive]
      intro hboth
      rw [hboth.1] at hboth
      exact absurd hboth.2 (by decide)
    refine ⟨hfail', hpass', ?_, ?_⟩
    · rw [hactive, hraised]
      exact h.active
    · rw [if_neg hsame, hcount]
      exact h.occurrences
  · obtain ⟨hactive, hcount, hraised⟩ := h.failed_reached hp (by omega)
    refine ⟨hfail', hpass', .inl ⟨hactive, hraised⟩, ?_⟩
    rw [hcount]
    simp only [hactive, and_true]

/-- The counters and the flag after a pass. -/
theorem reportPassed_fields (config : DemEventConfig) (runtime : DemEventRuntime) :
    (reportPassed config runtime).failCounter = 0 ∧
    (reportPassed config runtime).passCounter =
      (if runtime.passCounter < config.passThreshold then runtime.passCounter + 1
        else runtime.passCounter) ∧
    (reportPassed config runtime).dtc.occurrenceCounter = runtime.dtc.occurrenceCounter ∧
    (reportPassed config runtime).dtc.active =
      if runtime.passCounter.toNat + 1 < config.passThreshold.toNat then runtime.dtc.active
      else 0 := by
  unfold reportPassed
  simp only [failCounter_lt]
  split
  · exact ⟨rfl, rfl, rfl, rfl⟩
  · split
    · exact ⟨rfl, rfl, rfl, rfl⟩
    · exact ⟨rfl, rfl, rfl, rfl⟩

theorem Remembers.passed (h : Remembers config past onsets runtime)
    (hf : 0 < config.failThreshold) :
    Remembers config (past ++ [.passed]) onsets (reportPassed config runtime) := by
  obtain ⟨hfail, hpass, hcount, hactive⟩ := reportPassed_fields config runtime
  have hcounter := h.passCounter
  refine ⟨?_, ?_, ?_, ?_⟩
  · rw [hfail, streak_concat_of_ne (by decide)]
    simp
  · rw [hpass, streak_concat_self]
    exact toNat_saturate hcounter
  · have hiff : Raised config (past ++ [.passed]) ↔
        streak .passed past + 1 < config.passThreshold.toNat ∧ Raised config past := by
      unfold Raised
      rw [raised_concat_down (by decide) (by simpa [BitVec.lt_def] using hf), streak_concat_self]
    rw [hactive, hiff]
    by_cases hlt : streak .passed past + 1 < config.passThreshold.toNat
    · rw [if_pos (by omega)]
      rcases h.active with ⟨ha, hraised⟩ | ⟨ha, hraised⟩
      · exact .inl ⟨ha, hlt, hraised⟩
      · exact .inr ⟨ha, fun hboth => hraised hboth.2⟩
    · rw [if_neg (by omega)]
      exact .inr ⟨rfl, fun hboth => hlt hboth.1⟩
  · rw [hcount]
    exact h.occurrences

/-- One report is added to the history. -/
theorem Remembers.report (h : Remembers config past onsets runtime)
    (hf : 0 < config.failThreshold) (hp : 0 < config.passThreshold)
    (status : DemEventStatusType) :
    Remembers config (past ++ [status])
      (onsets + if runtime.dtc.active = 0 ∧ (Dem.report config status runtime).dtc.active = 1
        then 1 else 0) (Dem.report config status runtime) := by
  cases status with
  | failed => exact h.failed hp
  | passed =>
    -- a pass never raises the flag
    have hno : ¬ (runtime.dtc.active = 0 ∧ (Dem.report config .passed runtime).dtc.active = 1) := by
      intro hboth
      have hactive := (reportPassed_fields config runtime).2.2.2
      rw [hboth.1, ite_self] at hactive
      have hone := hboth.2
      rw [show Dem.report config .passed runtime = reportPassed config runtime from rfl,
        hactive] at hone
      exact absurd hone (by decide)
    rw [if_neg hno]
    exact h.passed hf

end DemEventRuntime

namespace Table

variable {configs : Table} {i : Fin 3}

/-- The calls add their reports to the history of each event. -/
theorem remembers_setAll (hf : 0 < (configs i).failThreshold)
    (hp : 0 < (configs i).passThreshold) (calls : List (Byte × DemEventStatusType)) :
    ∀ {s : State} {past : List DemEventStatusType} {n : Nat},
      DemEventRuntime.Remembers (configs i) past n (s.eventRuntime i) →
      DemEventRuntime.Remembers (configs i) (past ++ configs.history i calls)
        (n + configs.onsets i calls s) ((configs.setAll calls s).eventRuntime i) := by
  induction calls with
  | nil =>
    intro s past n h
    have hnil : configs.history i [] = [] := rfl
    rw [hnil, List.append_nil]
    exact h
  | cons call calls ih =>
    intro s past n h
    obtain ⟨eventId, status⟩ := call
    have hruntime := configs.eventRuntime_setEventStatus eventId status s i
    unfold setAll onsets history
    rw [List.filterMap_cons, ← Nat.add_assoc]
    by_cases hi : configs.findEventIndex eventId = some i
    · rw [if_pos hi] at hruntime ⊢
      rw [List.append_cons]
      apply ih
      rw [hruntime]
      exact h.report hf hp status
    · rw [if_neg hi] at hruntime ⊢
      apply ih
      have hsame : ¬ ((s.eventRuntime i).dtc.active = 0 ∧ (s.eventRuntime i).dtc.active = 1) := by
        intro hboth
        rw [hboth.1] at hboth
        exact absurd hboth.2 (by decide)
      rw [hruntime, if_neg hsame]
      exact h

end Table

open Table in
/-- Since the codes were cleared, the flag of each event is the hysteresis of the event's own history,
    and its occurrences are the times the flag went up. -/
theorem debounce_exact (configs : Table) (hf : ∀ i, 0 < (configs i).failThreshold)
    (hp : ∀ i, 0 < (configs i).passThreshold) (calls : List (Byte × DemEventStatusType))
    (s : State) :
    (∀ i, let runtime := (configs.setAll calls (configs.clearDtc s)).eventRuntime i
      (runtime.dtc.active = 1 ↔ DemEventRuntime.Raised (configs i) (configs.history i calls)) ∧
      (runtime.dtc.active = 0 ∨ runtime.dtc.active = 1) ∧
      runtime.dtc.occurrenceCounter.toNat =
        min (configs.onsets i calls (configs.clearDtc s)) 255 ∧
      runtime.failCounter ≤ (configs i).failThreshold ∧
      runtime.passCounter ≤ (configs i).passThreshold ∧
      (runtime.failCounter = 0 ∨ runtime.passCounter = 0)) ∧
    ∀ (t : State) eventId status i, configs.findEventIndex eventId ≠ some i →
      (configs.setEventStatus eventId status t).eventRuntime i = t.eventRuntime i := by
  constructor
  · intro i runtime
    have hcleared := DemEventRuntime.remembers_cleared (hf i) (configs i).dtc
    have h := remembers_setAll (s := configs.clearDtc s) (hf i) (hp i) calls hcleared
    rw [List.nil_append, Nat.zero_add] at h
    refine ⟨?_, ?_, h.occurrences, ?_, ?_, ?_⟩
    · rcases h.active with ⟨ha, hraised⟩ | ⟨ha, hraised⟩
      · exact ⟨fun _ => hraised, fun _ => ha⟩
      · refine ⟨fun hone => ?_, fun hr => absurd hr hraised⟩
        rw [show runtime.dtc.active = 0 from ha] at hone
        exact absurd hone (by decide)
    · rcases h.active with ⟨ha, -⟩ | ⟨ha, -⟩
      · exact .inr ha
      · exact .inl ha
    · rw [BitVec.le_def]
      exact h.failCounter.trans_le (Nat.min_le_right _ _)
    · rw [BitVec.le_def]
      exact h.passCounter.trans_le (Nat.min_le_right _ _)
    · -- the history cannot end with reports of both kinds
      rcases streak_eq_zero_of_ne (a := DemEventStatusType.failed) (b := .passed) (by decide)
        (configs.history i calls) with hz | hz
      · left
        apply BitVec.eq_of_toNat_eq
        have hcounter := h.failCounter
        rw [hz, Nat.zero_min] at hcounter
        exact hcounter
      · right
        apply BitVec.eq_of_toNat_eq
        have hcounter := h.passCounter
        rw [hz, Nat.zero_min] at hcounter
        exact hcounter
  · intro t eventId status i hi
    rw [eventRuntime_setEventStatus, if_neg hi]

/-- The table of the application, after two interrupted failures and a burst of three. -/
theorem debounce_exact_coolant :
    let calls : List (Byte × DemEventStatusType) :=
      [(eventCoolantOverTemp, .failed), (eventCoolantOverTemp, .failed),
        (eventCoolantOverTemp, .passed), (eventCoolantOverTemp, .failed),
        (eventCoolantOverTemp, .failed), (eventControlTimeout, .passed),
        (eventCoolantOverTemp, .failed)]
    DemEventRuntime.Raised (eventConfigs 0) (Table.history eventConfigs 0 calls) :=
  ((debounce_exact eventConfigs (by decide) (by decide) _ State.startup).1 0).1.1 (by decide)

end Dem
