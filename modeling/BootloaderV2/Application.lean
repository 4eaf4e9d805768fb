import BootloaderV2.Resets

/-!
# The application and the bootloader's note

`boot_app_if.c` and `AppHealth.c`: the application reads from the retained block whether it is on
trial, asks for its confirmation when it is healthy, and leaves the block a record when it resets.
The ticks are those of the scheduler, a millisecond each.
-/

open BootConfig CrashM

namespace BootAppIf

/-- `BootAppIfResultType`. -/
inductive Result where
  | ok | notSupported | notImplemented | unknown | invalidArgument
  deriving DecidableEq, Repr

/-- `BootAppStatusType`. -/
inductive Status where
  | unknown | normal | trial
  deriving DecidableEq, Repr

def statusStateMask : Word := 0xFF00
def statusStateShift : Nat := 8
def appFirmwareVersion : Word := 0x02000000

/-- `Boot_GetBootStatus`; the states are 4 for a trial and 5 for a confirmed image. -/
def getBootStatus (r : RetainedRecord) : Result × Status :=
  if r.magic ≠ statusMagic ∨ r.inverse ≠ ~~~statusMagic ∨ r.data ≠ ~~~r.dataInverse then
    (.unknown, .unknown)
  else
    let state := (r.data &&& statusStateMask) >>> statusStateShift
    let status := if state = 4 then .trial else if state = 5 then .normal else Status.unknown
    (if status = .unknown then .unknown else .ok, status)

/-- `Boot_GetRunningVersion` of an application that was built for slot `running`. -/
def getRunningVersion (mem : Nat → Byte) (running : Slot) : Word :=
  let header := running.header
  if readWord mem header = BootImage.headerMagic ∧ readWord mem (header + 4) = 1 then
    readWord mem (header + 16)
  else appFirmwareVersion

/-- `Boot_ConfirmApplication`. -/
def confirmApplication (tick : Word) (block : RetainedRecord) (request : AppBootRequest.State) :
    Result × AppBootRequest.State :=
  match getBootStatus block with
  | (.ok, .normal) => (.ok, request)
  | (.ok, .trial) => (.ok, AppBootRequest.requestConfirmReset tick request)
  | _ => (.unknown, request)

end BootAppIf

namespace AppHealth

/-- `APP_TRIAL_MODE`. -/
inductive TrialMode where
  | normal | noConfirm | watchdogReset | hardfaultTest | resetLoop | delayConfirm
  deriving DecidableEq, Repr

/-- What `AppHealth_CheckBootReady` asks the other modules, and the tick. -/
structure Vitals where
  canIfInitialized : Bool
  vehicleCycleCount : Word
  txCount : Word
  tick : Word

def checkBootReady (fatalError : Bool) (v : Vitals) : Bool :=
  !fatalError && v.canIfInitialized && v.vehicleCycleCount != 0 && v.txCount != 0 &&
    decide (1000 ≤ v.tick.toNat)

/-- What becomes of the application: it goes on, stores a record and resets, or waits for the
    watchdog. -/
inductive Action where
  | goesOn (request : AppBootRequest.State)
  | resets (record : RetainedRecord)
  | hangs

/-- `AppHealth_RunTrialAction`, of a build for `mode`. -/
def runTrialAction (mode : TrialMode) (fatalError : Bool) (v : Vitals) (block : RetainedRecord)
    (request : AppBootRequest.State) : Action :=
  if BootAppIf.getBootStatus block ≠ (.ok, .trial) then .goesOn request
  else
    match mode with
    | .normal =>
      if checkBootReady fatalError v then
        .goesOn (BootAppIf.confirmApplication v.tick block request).2
      else .goesOn request
    | .noConfirm => .goesOn request
    | .watchdogReset => .hangs
    -- the fault handler of this build records the fault
    | .hardfaultTest => .resets AppBootRequest.faultRecord
    | .resetLoop => .resets .cleared
    | .delayConfirm =>
      if decide (10000 ≤ v.tick.toNat) && checkBootReady fatalError v then
        .goesOn (BootAppIf.confirmApplication v.tick block request).2
      else .goesOn request

end AppHealth

/-- An application that was built for a slot and a trial mode, with the block as the boot left it. -/
structure App where
  mode : AppHealth.TrialMode
  running : Slot
  block : RetainedRecord
  request : AppBootRequest.State
  fatalError : Bool

namespace App

/-- The application when its scheduler starts. -/
def start (mode : AppHealth.TrialMode) (running : Slot) (block : RetainedRecord) : App :=
  ⟨mode, running, block, ⟨0, 0⟩, false⟩

/-- What the tasks do that bears on the block: a turn of the health task, a request for the
    programming session, a turn of `Boot_AppIfMainFunction`, and the hooks of the scheduler. -/
inductive Event where
  | health (v : AppHealth.Vitals)
  | requestReprogramming (tick : Word)
  | mainFunction (tick : Word)
  | fatal

inductive Next where
  | goesOn (app : App)
  | leaves (record : RetainedRecord)
  | hangs

def step (app : App) : Event → Next
  | .health v =>
    match AppHealth.runTrialAction app.mode app.fatalError v app.block app.request with
    | .goesOn request => .goesOn { app with request }
    | .resets record => .leaves record
    | .hangs => .hangs
  | .requestReprogramming tick =>
    .goesOn { app with request := AppBootRequest.requestProgrammingReset tick }
  | .mainFunction tick =>
    match AppBootRequest.mainFunction tick app.running app.request with
    | some record => .leaves record
    | none => .goesOn app
  -- the hooks disable the interrupts and stay in a loop
  | .fatal => .hangs

/-- The application after some events, while it goes on. -/
inductive After (app : App) : List Event → App → Prop where
  | start : After app [] app
  | step {es : List Event} {app₁ app₂ : App} (e : Event) (h : After app es app₁)
    (hstep : app₁.step e = .goesOn app₂) : After app (e :: es) app₂

/-- A turn of the health task that asks for the confirmation. -/
structure Confirms (app : App) (v : AppHealth.Vitals) : Prop where
  status : BootAppIf.getBootStatus app.block = (.ok, .trial)
  mode : app.mode = .normal ∨ app.mode = .delayConfirm ∧ 10000 ≤ v.tick.toNat
  ready : AppHealth.checkBootReady app.fatalError v = true

/-- What is pending after the events `es`, the last one first. -/
inductive Pending (app : App) (es : List Event) (request : AppBootRequest.State) : Prop where
  | none (hmagic : request.pendingMagic = 0) (hes : ∀ t, .requestReprogramming t ∉ es)
  | programming (tick : Word) (h : request = ⟨requestMagic, tick⟩)
    (hes : .requestReprogramming tick ∈ es)
  | confirming (v : AppHealth.Vitals) (h : request = ⟨confirmMagic, v.tick⟩)
    (hes : ∀ t, .requestReprogramming t ∉ es) (hv : .health v ∈ es) (hc : app.Confirms v)

theorem requestMagic_ne : requestMagic ≠ 0 ∧ confirmMagic ≠ 0 ∧ requestMagic ≠ confirmMagic := by
  decide

variable {app app' : App} {es : List Event} {e : Event}

/-- A turn of the health task leaves what is pending, or asks for the confirmation. -/
theorem runTrialAction_goesOn {v : AppHealth.Vitals} {request : AppBootRequest.State}
    (h : AppHealth.runTrialAction app.mode app.fatalError v app.block app.request =
      .goesOn request) : request = app.request ∨
      app.Confirms v ∧ request = AppBootRequest.requestConfirmReset v.tick app.request := by
  unfold AppHealth.runTrialAction at h
  split at h
  · cases h
    exact .inl rfl
  rename_i hstatus
  have hst : BootAppIf.getBootStatus app.block = (.ok, .trial) := not_not.1 hstatus
  have hconfirm : (BootAppIf.confirmApplication v.tick app.block app.request).2 =
      AppBootRequest.requestConfirmReset v.tick app.request := by
    unfold BootAppIf.confirmApplication
    rw [hst]
  rw [hconfirm] at h
  cases hm : app.mode with
  | normal =>
    rw [hm] at h
    dsimp only at h
    by_cases hready : AppHealth.checkBootReady app.fatalError v = true
    · rw [if_pos hready] at h
      cases h
      exact .inr ⟨⟨hst, .inl hm, hready⟩, rfl⟩
    · rw [if_neg hready] at h
      cases h
      exact .inl rfl
  | delayConfirm =>
    rw [hm] at h
    dsimp only at h
    by_cases hready : (decide (10000 ≤ v.tick.toNat) &&
        AppHealth.checkBootReady app.fatalError v) = true
    · rw [if_pos hready] at h
      cases h
      rw [Bool.and_eq_true, decide_eq_true_eq] at hready
      exact .inr ⟨⟨hst, .inr ⟨hm, hready.1⟩, hready.2⟩, rfl⟩
    · rw [if_neg hready] at h
      cases h
      exact .inl rfl
  | noConfirm =>
    rw [hm] at h
    cases h
    exact .inl rfl
  | watchdogReset | hardfaultTest | resetLoop =>
    rw [hm] at h
    cases h

/-- A step changes what is pending and nothing else. -/
theorem step_goesOn (h : app.step e = .goesOn app') : ∃ request,
    app' = { app with request } ∧ (request = app.request ∧ (∀ t, e ≠ .requestReprogramming t) ∨
      (∃ tick, e = .requestReprogramming tick ∧ request = ⟨requestMagic, tick⟩) ∨
      ∃ v, e = .health v ∧ app.Confirms v ∧
        request = AppBootRequest.requestConfirmReset v.tick app.request) := by
  cases e with
  | health v =>
    simp only [step] at h
    split at h
    · rename_i request hrun
      cases h
      refine ⟨request, rfl, ?_⟩
      rcases runTrialAction_goesOn hrun with hsame | ⟨hc, hreq⟩
      · exact .inl ⟨hsame, fun t he => by cases he⟩
      · exact .inr (.inr ⟨v, rfl, hc, hreq⟩)
    · cases h
    · cases h
  | requestReprogramming tick =>
    cases h
    exact ⟨_, rfl, .inr (.inl ⟨tick, rfl, rfl⟩)⟩
  | mainFunction tick =>
    simp only [step] at h
    split at h
    · cases h
    · cases h
      exact ⟨app.request, rfl, .inl ⟨rfl, fun t he => by cases he⟩⟩
  | fatal => cases h

/-- A request to reprogram comes before one to confirm, and stays. -/
theorem Pending.step {app₁ : App} (h : Pending app es app₁.request)
    (hsame : app₁ = { app with request := app₁.request }) (hstep : app₁.step e = .goesOn app') :
    Pending app (e :: es) app'.request ∧ app' = { app with request := app'.request } := by
  obtain ⟨request, rfl, hcase⟩ := step_goesOn hstep
  refine ⟨?_, by rw [hsame]⟩
  have hmem : ∀ {t}, (∀ t, e ≠ .requestReprogramming t) →
      (∀ t, .requestReprogramming t ∉ es) → Event.requestReprogramming t ∉ e :: es := by
    intro t he hes hin
    rcases List.mem_cons.1 hin with heq | hin
    · exact he t heq.symm
    · exact hes t hin
  rcases hcase with ⟨rfl, he⟩ | ⟨tick, rfl, rfl⟩ | ⟨v, rfl, hc, rfl⟩
  · cases h with
    | none hmagic hes => exact .none hmagic fun t => hmem he hes
    | programming tick h hes => exact .programming tick h (List.mem_cons_of_mem _ hes)
    | confirming v h hes hv hc =>
      exact .confirming v h (fun t => hmem he hes) (List.mem_cons_of_mem _ hv) hc
  · exact .programming tick rfl List.mem_cons_self
  · have hc' : app.Confirms v := by
      rw [hsame] at hc
      exact ⟨hc.status, hc.mode, hc.ready⟩
    have hother : ∀ t, Event.health v ≠ .requestReprogramming t := fun t ht => by cases ht
    show Pending app _ (AppBootRequest.requestConfirmReset v.tick app₁.request)
    unfold AppBootRequest.requestConfirmReset
    cases h with
    | none hmagic hes =>
      rw [if_pos hmagic]
      exact .confirming v rfl (fun t => hmem hother hes) List.mem_cons_self hc'
    | programming tick h hes =>
      rw [h, if_neg requestMagic_ne.1]
      exact .programming tick rfl (List.mem_cons_of_mem _ hes)
    | confirming v' h hes hv hc =>
      rw [h, if_neg requestMagic_ne.2.1]
      exact .confirming v' rfl (fun t => hmem hother hes) (List.mem_cons_of_mem _ hv) hc

theorem After.pending (h : After app es app') (h₀ : app.request.pendingMagic = 0) :
    Pending app es app'.request ∧ app' = { app with request := app'.request } := by
  induction h with
  | start => exact ⟨.none h₀ fun t => List.not_mem_nil, rfl⟩
  | step e _ hstep ih => exact ih.1.step ih.2 hstep

/-- The record that an application leaves when it resets itself. -/
inductive Leaves (app : App) (es : List Event) (r : RetainedRecord) : Prop where
  | programming (h : r = AppBootRequest.record requestMagic app.running.code) (tick : Word)
    (hes : .requestReprogramming tick ∈ es)
  | confirm (h : r = AppBootRequest.record confirmMagic app.running.code)
    (hes : ∀ t, .requestReprogramming t ∉ es) (v : AppHealth.Vitals) (hv : .health v ∈ es)
    (hc : app.Confirms v)
  | fault (h : r = AppBootRequest.faultRecord) (hmode : app.mode = .hardfaultTest)
  | clear (h : r = .cleared) (hmode : app.mode = .resetLoop)

theorem runTrialAction_resets {v : AppHealth.Vitals} {r : RetainedRecord}
    (h : AppHealth.runTrialAction app.mode app.fatalError v app.block app.request = .resets r) :
    r = AppBootRequest.faultRecord ∧ app.mode = .hardfaultTest ∨
      r = .cleared ∧ app.mode = .resetLoop := by
  unfold AppHealth.runTrialAction at h
  split at h
  · cases h
  cases hm : app.mode with
  | hardfaultTest =>
    rw [hm] at h
    cases h
    exact .inl ⟨rfl, rfl⟩
  | resetLoop =>
    rw [hm] at h
    cases h
    exact .inr ⟨rfl, rfl⟩
  | normal | delayConfirm =>
    rw [hm] at h
    dsimp only at h
    split at h
    · cases h
    · cases h
  | noConfirm | watchdogReset =>
    rw [hm] at h
    cases h

/-- What an application leaves, whatever its tasks have done before. -/
theorem After.leaves {r : RetainedRecord} (h : After app es app')
    (h₀ : app.request.pendingMagic = 0) (hstep : app'.step e = .leaves r) : Leaves app es r := by
  obtain ⟨hpending, hsame⟩ := h.pending h₀
  have hrunning : app'.running = app.running := by rw [hsame]
  cases e with
  | health v =>
    simp only [App.step] at hstep
    split at hstep
    · cases hstep
    · rename_i record hrun
      cases hstep
      have hmode : app'.mode = app.mode := by rw [hsame]
      rcases runTrialAction_resets hrun with ⟨hr, hm⟩ | ⟨hr, hm⟩
      · exact .fault hr (hmode.symm.trans hm)
      · exact .clear hr (hmode.symm.trans hm)
    · cases hstep
  | requestReprogramming tick => cases hstep
  | mainFunction tick =>
    simp only [App.step] at hstep
    split at hstep
    · rename_i record hrun
      cases hstep
      unfold AppBootRequest.mainFunction at hrun
      split at hrun
      · cases hrun
      rename_i hdue
      cases hrun
      rw [hrunning]
      cases hpending with
      | none hmagic _ => exact absurd (.inl hmagic) hdue
      | programming tick h hes =>
        rw [h]
        exact .programming rfl tick hes
      | confirming v h hes hv hc =>
        rw [h]
        exact .confirm rfl hes v hv hc
    · cases hstep
  | fatal => cases hstep

/-- Only an application on trial that has found itself healthy asks for its confirmation, unless the
    programming session was asked for; and it names the slot that it was built for. -/
theorem After.confirm_record {r : RetainedRecord} (h : After app es app')
    (h₀ : app.request.pendingMagic = 0) (hstep : app'.step e = .leaves r)
    (hr : r.magic = confirmMagic) : r = AppBootRequest.record confirmMagic app.running.code ∧
      BootAppIf.getBootStatus app.block = (.ok, .trial) ∧
      ∃ v, .health v ∈ es ∧ app.Confirms v := by
  cases h.leaves h₀ hstep with
  | programming h _ _ =>
    rw [h] at hr
    exact absurd hr requestMagic_ne.2.2
  | confirm h _ v hv hc => exact ⟨h, hc.status, v, hv, hc⟩
  | fault h _ =>
    rw [h] at hr
    exact absurd hr (by decide)
  | clear h _ =>
    rw [h] at hr
    exact absurd hr (by decide)

end App

/-- The note of the bootloader as the application reads it. -/
theorem BootAppIf.getBootStatus_handover {l : BootLifecycle.State} {s : Slot} :
    ((l.metadata s).state = BootImageState.trial.code →
      getBootStatus (BootLifecycle.handoverRecord l s) = (.ok, .trial)) ∧
    ((l.metadata s).state = BootImageState.confirmed.code →
      getBootStatus (BootLifecycle.handoverRecord l s) = (.ok, .normal)) := by
  have hstatus : ∀ (state : BootImageState) (s : Slot) (reason : BootResetReason),
      ((s.code ||| (state.code &&& 0xFF) <<< 8 ||| (reason.code &&& 0xFF) <<< 16) &&&
        statusStateMask) >>> statusStateShift = state.code := by
    intro state s reason
    cases state <;> cases s <;> cases reason <;> decide
  have hdecode : ∀ data : Word, getBootStatus ⟨statusMagic, ~~~statusMagic, data, ~~~data⟩ =
      (let state := (data &&& statusStateMask) >>> statusStateShift
       let status := if state = 4 then .trial else if state = 5 then .normal else Status.unknown
       (if status = .unknown then .unknown else .ok, status)) := by
    intro data
    have hword : ¬ (statusMagic ≠ statusMagic ∨ ~~~statusMagic ≠ ~~~statusMagic ∨
        data ≠ ~~~~~~data) := by simp
    unfold getBootStatus
    rw [if_neg hword]
  constructor
  · intro hst
    unfold BootLifecycle.handoverRecord
    dsimp only
    rw [hdecode, hst, hstatus .trial]
    decide
  · intro hst
    unfold BootLifecycle.handoverRecord
    dsimp only
    rw [hdecode, hst, hstatus .confirmed]
    decide
