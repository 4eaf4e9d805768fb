import BootloaderV2.Retained
import BootloaderV2.Server

/-!
# From one reset to the next

`AppBootRequest.c`, and `BootManager_Run` as the statements between which a reset can come.  The
four words of the retained block are stored one after the other, so a reset may leave some of them.
What was stored since the last reset is kept beside the board; the code does not see it.
-/

open BootConfig NorFlash CrashM

/-! ## The application -/

namespace AppBootRequest

def appBootResetDelayMs : Nat := 100

structure State where
  pendingMagic : Word
  resetTick : Word

def requestProgrammingReset (tick : Word) : State := ⟨requestMagic, tick⟩

/-- A request to reprogram stays. -/
def requestConfirmReset (tick : Word) (s : State) : State :=
  if s.pendingMagic = 0 then ⟨confirmMagic, tick⟩ else s

/-- What `write_and_reset` stores. -/
def record (magic data : Word) : RetainedRecord := ⟨magic, ~~~magic, data, ~~~data⟩

/-- What `AppBootRequest_RecordFaultAndReset` stores. -/
def faultRecord : RetainedRecord := record faultMagic 1

/-- What `AppBootRequest_MainFunction` stores before it resets, a hundred ticks after a request.
    `Boot_GetRunningSlot` always knows the slot the application was built for. -/
def mainFunction (tick : Word) (running : Slot) (s : State) : Option RetainedRecord :=
  if s.pendingMagic = 0 ∨ (tick - s.resetTick).toNat < appBootResetDelayMs then none
  else some (record s.pendingMagic running.code)

end AppBootRequest

/-! ## The stores to the block -/

/-- The block after the first `n` of the four stores of a record. -/
def RetainedRecord.stored (r old : RetainedRecord) (n : Nat) : RetainedRecord :=
  ⟨if 0 < n then r.magic else old.magic, if 1 < n then r.inverse else old.inverse,
    if 2 < n then r.data else old.data, if 3 < n then r.dataInverse else old.dataInverse⟩

def RetainedRecord.cleared : RetainedRecord := ⟨0, 0, 0, 0⟩

def BootResetReason.normalizeRecord (reason : BootResetReason) : RetainedRecord :=
  ⟨normalizeMagic, ~~~normalizeMagic, reason.code, ~~~reason.code⟩

def BootLifecycle.handoverRecord (l : State) (slot : Slot) : RetainedRecord :=
  let data := slot.code ||| ((l.metadata slot).state &&& 0xFF) <<< 8 |||
    (l.currentResetReason.code &&& 0xFF) <<< 16
  ⟨statusMagic, ~~~statusMagic, data, ~~~data⟩

theorem BootResetReason.preserveForNormalization_eq {reason : BootResetReason} :
    preserveForNormalization reason = BootM.setRetained (normalizeRecord reason) := rfl

theorem BootLifecycle.writeAppHandover_eq {slot : Slot} : writeAppHandover slot = (do
    reload
    let ram ← BootM.getRam
    BootM.setRetained (handoverRecord ram.lifecycle slot)) := rfl

namespace Resets

/-- Where the processor is.  The states of `BootManager_Run` are split where the block is stored
    to; BOOT_STATE_ERROR is entered because `BootLifecycle_PrepareBoot` failed, or because
    `BootJump_ToSlot` refused. -/
inductive Phase where
  | init
  | checkRequest
  | captureSlot (softwareRequest hardwareRequest : Bool)
  | checkApp
  | jumpApp (slot : Slot)
  | handOver (slot : Slot)
  | launch (slot : Slot)
  | programming
  | starting
  | serving
  | unprepared
  | refused
  | application (slot : Slot)
  /-- `record` is stored next -/
  | storing (record : RetainedRecord) (next : Phase)
  /-- the bootloader waits for the reset that normalises the start -/
  | normalizing
  /-- the server waits for the reset it was asked for -/
  | stopping
  /-- the application waits for the reset it has caused -/
  | leaving
  /-- a flash command was cut -/
  | cut

structure System where
  board : Board
  app : AppBootRequest.State
  phase : Phase
  /-- the reason that the boot found in the block -/
  found : Option BootResetReason
  /-- the magic word of a FAULT or NORMALIZE record whose stores have begun since the reset -/
  written : Option Word
  /-- the same at the reset that started the boot -/
  announced : Option Word

/-- The magic word, if it is that of a reset reason. -/
def reasonMagic (r : RetainedRecord) : Option Word :=
  if r.magic = faultMagic ∨ r.magic = normalizeMagic then some r.magic else none

end Resets

namespace BootResetReason

/-- The reason a record in the block stands for. -/
def recorded (r : RetainedRecord) : Option BootResetReason :=
  if (retainedData r faultMagic).isSome then some .fault
  else (retainedData r normalizeMagic).bind BootResetReason.ofCode

/-- The reason decoded from the reset flags. -/
def decoded (srs : ResetStatus) : BootResetReason :=
  if srs.wdog then .watchdog
  else if srs.por then .powerOn
  else if srs.lockup || srs.sackerr then .fault
  else if srs.pin then .external
  else if srs.sw then .software
  else if srs.jtag then .debug
  else if srs.lvd then .lowVoltage
  else if srs.loc || srs.lol then .clock
  else .unknown

theorem capture_eq (b : Board) : capture b = (recorded b.retained).getD (decoded b.hw.srs) := by
  unfold capture recorded
  dsimp only
  by_cases hfault : (retainedData b.retained faultMagic).isSome
  · rw [if_pos hfault, if_pos hfault]
    rfl
  · rw [if_neg hfault, if_neg hfault]
    cases (retainedData b.retained normalizeMagic).bind ofCode <;> rfl

end BootResetReason

namespace Resets

open BootResetReason (recorded decoded)

namespace System

/-- The block after `n` stores of the record that is stored next. -/
def block (s : System) (n : Nat) : RetainedRecord :=
  match s.phase with
  | .storing record _ => record.stored s.board.retained n
  | _ => s.board.retained

def writtenAt (s : System) (n : Nat) : Option Word :=
  match s.phase with
  | .storing record _ => if 0 < n then (reasonMagic record).or s.written else s.written
  | _ => s.written

/-- Runs a program of the bootloader from a board. -/
def runs {α : Type} (s : System) (m : BootM α) (b : Board) (next : α → Board → Phase) : System :=
  match m b with
  | .done a b' => { s with board := b', phase := next a b' }
  | .cut b' => { s with board := b', phase := .cut }

end System

/-- The next statement of the processor. -/
def advance (s : System) : System :=
  match s.phase with
  | .init => s.runs BootManager.init s.board fun _ _ => .checkRequest
  | .checkRequest =>
    let next := .captureSlot (BootRequest.retainedRequest s.board requestMagic) s.board.hw.requestPin
    match if BootRequest.retainedRequest s.board confirmMagic then
      BootRequest.getRequestedSlot s.board.retained else none with
    | some slot => s.runs (BootLifecycle.confirm slot) s.board fun _ _ => .storing .cleared next
    | none => { s with phase := next }
  | .captureSlot softwareRequest hardwareRequest =>
    let next := if softwareRequest || hardwareRequest then .programming else .checkApp
    s.runs (BootManager.captureActiveSlot softwareRequest) s.board fun _ _ =>
      if softwareRequest then .storing .cleared next else next
  | .checkApp =>
    s.runs BootManager.checkApp s.board fun found _ =>
      match found with
      | some slot => .jumpApp slot
      | none => .programming
  | .jumpApp slot =>
    if !s.board.hw.srs.sw then
      { s with
        phase := .storing (BootResetReason.normalizeRecord s.board.ram.lifecycle.currentResetReason)
          .normalizing }
    else s.runs (BootLifecycle.prepareBoot slot) s.board fun ok _ =>
      if ok then .handOver slot else .unprepared
  | .handOver slot =>
    s.runs BootLifecycle.reload s.board fun _ b =>
      .storing (BootLifecycle.handoverRecord b.ram.lifecycle slot) (.launch slot)
  | .launch slot =>
    s.runs (BootJump.toSlot slot) s.board fun ok _ => if ok then .application slot else .refused
  | .storing _ next =>
    { s with
      board := { s.board with retained := s.block 4 }
      phase := next
      written := s.writtenAt 4 }
  | .programming =>
    s.runs (BootM.setManager fun m => { m with selectedTarget := .programming }) s.board
      fun _ _ => .starting
  | .starting => s.runs BootUds.init s.board fun _ _ => .serving
  | _ => s

/-- What the application may call. -/
inductive Call where
  | requestProgrammingReset (tick : Word)
  | requestConfirmReset (tick : Word)
  | mainFunction (tick : Word)
  | recordFaultAndReset
  | resetWithoutRequest

def call (c : Call) (running : Slot) (s : System) : System :=
  match c with
  | .requestProgrammingReset tick =>
    { s with app := AppBootRequest.requestProgrammingReset tick }
  | .requestConfirmReset tick => { s with app := AppBootRequest.requestConfirmReset tick s.app }
  | .mainFunction tick =>
    match AppBootRequest.mainFunction tick running s.app with
    | some record => { s with phase := .storing record .leaving }
    | none => s
  | .recordFaultAndReset => { s with phase := .storing AppBootRequest.faultRecord .leaving }
  | .resetWithoutRequest => { s with phase := .storing .cleared .leaving }

inductive Event where
  | advance
  /-- the server receives a request -/
  | request (turn : Turn) (q : List Byte)
  /-- or only its timer goes on -/
  | timer (turn : Turn)
  | call (c : Call)
  /-- a reset with any flags, after some stores of the record that was being stored; SRAM keeps the
      block, and the coming flash commands end as `fates` tells -/
  | reset (hw : Hardware) (fates : List Fate) (stores : Nat)

def boot (hw : Hardware) (fates : List Fate) (stores : Nat) (s : System) : System where
  board := ⟨⟨s.board.mem, fates, s.board.dev.log⟩, Ram.startup, s.block stores, hw⟩
  app := ⟨0, 0⟩
  phase := .init
  found := recorded (s.block stores)
  written := none
  announced := s.writtenAt stores

def step (e : Event) (s : System) : System :=
  match e with
  | .advance => advance s
  | .request turn q =>
    match s.phase with
    | .serving => s.runs (BootUds.processRequest q) (turn.on s.board) fun response b =>
        if response.isSome && b.ram.uds.resetPending then .stopping else .serving
    | _ => s
  | .timer turn =>
    match s.phase with
    | .serving => s.runs BootUds.mainFunction (turn.on s.board) fun _ _ => .serving
    | _ => s
  | .call c =>
    match s.phase with
    | .application slot => call c slot s
    | _ => s
  | .reset hw fates stores => boot hw fates stores s

/-- The first boot, from whatever is in the memories. -/
def start (b : Board) : System :=
  ⟨{ b with ram := Ram.startup }, ⟨0, 0⟩, .init, recorded b.retained, none, none⟩

def trace (events : Nat → Event) (s : System) : Nat → System
  | 0 => s
  | n + 1 => step (events n) (trace events s n)

/-! ## One boot is `BootManager_Run` -/

/-- Statements without a reset between them. -/
abbrev Advances : System → System → Prop := Relation.ReflTransGen fun s s' => s' = advance s

/-- The statements from `s` on do what `m` does, until `m` returns or is cut. -/
def Follows {α : Type} (m : BootM α) (R : α → System → Prop) (s : System) : Prop :=
  wp m (fun a b => ∃ s', Advances s s' ∧ s'.board = b ∧ R a s')
    (fun b => ∃ s', Advances s s' ∧ s'.board = b ∧ s'.phase = .cut) s.board

namespace Follows

variable {α β : Type} {m n : BootM α} {f : α → BootM β} {R : α → System → Prop}
  {R' : β → System → Prop} {s : System}

theorem pure {a : α} (h : R a s) : Follows (Pure.pure a) R s := ⟨s, .refl, rfl, h⟩

theorem bind (h : Follows m R s) (hf : ∀ a s', R a s' → Follows (f a) R' s') :
    Follows (m >>= f) R' s := by
  apply wp_seq h
  · intro a b ⟨s', hs', hb, hr⟩
    have hrest := hf a s' hr
    unfold Follows at hrest
    rw [hb] at hrest
    apply wp_mono hrest
    · intro c b' ⟨s'', hs'', hb', hr'⟩
      exact ⟨s'', hs'.trans hs'', hb', hr'⟩
    · intro b' ⟨s'', hs'', hb', hcut⟩
      exact ⟨s'', hs'.trans hs'', hb', hcut⟩
  · exact fun _ hcut => hcut

theorem bind_get {g : Board → BootM β} (h : Follows (g s.board) R' s) :
    Follows (CrashM.get >>= g) R' s := h

theorem bind_getRam {g : Ram → BootM β} (h : Follows (g s.board.ram) R' s) :
    Follows (BootM.getRam >>= g) R' s := h

/-- A statement that runs a program. -/
theorem runs {next : α → Board → Phase} (h : advance s = s.runs m s.board next) :
    Follows m (fun a s' => s'.phase = next a s'.board) s := by
  unfold Follows wp
  unfold System.runs at h
  cases hm : m s.board with
  | done a b =>
    rw [hm] at h
    exact ⟨_, .single h.symm, rfl, rfl⟩
  | cut b =>
    rw [hm] at h
    exact ⟨_, .single h.symm, rfl, rfl⟩

/-- A statement that only decides what comes next. -/
theorem skip (hboard : (advance s).board = s.board) (h : Follows m R (advance s)) :
    Follows m R s := by
  unfold Follows at h
  rw [hboard] at h
  apply wp_mono h
  · intro a b ⟨s', hs', hb, hr⟩
    exact ⟨s', hs'.head rfl, hb, hr⟩
  · intro b ⟨s', hs', hb, hcut⟩
    exact ⟨s', hs'.head rfl, hb, hcut⟩

/-- The stores of a record. -/
theorem stores {record : RetainedRecord} {next : Phase} (h : s.phase = .storing record next) :
    Follows (BootM.setRetained record) (fun _ s' => s'.phase = next) s := by
  have hblock : s.block 4 = record := by
    unfold System.block
    rw [h]
    rfl
  refine ⟨advance s, .single rfl, ?_, ?_⟩
  · unfold advance
    rw [h, ← hblock]
  · unfold advance
    rw [h]

end Follows

/-- Where the statements are when `BootManager_Run` leaves its states. -/
def Ends : BootExit → System → Prop
  | .programming, s => s.phase = .starting
  | .reset, s => s.phase = .normalizing
  | .jumped slot, s => s.phase = .application slot
  | .error, s => s.phase = .unprepared ∨ s.phase = .refused

variable {s : System}

theorem follows_checkRequest (h : s.phase = .checkRequest) :
    Follows BootManager.checkRequest
      (fun requested s' => s'.phase = if requested then .programming else .checkApp) s := by
  -- what is left once a confirmation has been dealt with
  have hcapture : ∀ softwareRequest hardwareRequest s',
      s'.phase = .captureSlot softwareRequest hardwareRequest → Follows (do
        BootManager.captureActiveSlot softwareRequest
        if softwareRequest = true then BootRequest.clearSoftwareBootRequest
        return softwareRequest || hardwareRequest : BootM Bool)
        (fun requested s' => s'.phase = if requested then .programming else .checkApp) s' := by
    intro softwareRequest hardwareRequest s' hs'
    have hadv : advance s' = s'.runs (BootManager.captureActiveSlot softwareRequest) s'.board
        fun _ _ => if softwareRequest then
          .storing .cleared (if softwareRequest || hardwareRequest then .programming else .checkApp)
          else if softwareRequest || hardwareRequest then .programming else .checkApp := by
      unfold advance
      rw [hs']
    apply (Follows.runs hadv).bind
    intro _ s'' hs''
    cases softwareRequest with
    | true => exact (Follows.stores hs'').bind fun _ _ hphase => .pure hphase
    | false => exact .pure hs''
  have hadv : advance s =
      (match if BootRequest.retainedRequest s.board confirmMagic then
        BootRequest.getRequestedSlot s.board.retained else none with
      | some slot => s.runs (BootLifecycle.confirm slot) s.board fun _ _ => .storing .cleared
          (.captureSlot (BootRequest.retainedRequest s.board requestMagic) s.board.hw.requestPin)
      | none => { s with
          phase := .captureSlot (BootRequest.retainedRequest s.board requestMagic)
            s.board.hw.requestPin }) := by
    unfold advance
    rw [h]
  unfold BootManager.checkRequest
  apply Follows.bind_get
  dsimp only
  cases hconfirm : (if BootRequest.retainedRequest s.board confirmMagic then
      BootRequest.getRequestedSlot s.board.retained else none) with
  | some slot =>
    rw [hconfirm] at hadv
    apply (Follows.runs hadv).bind
    intro _ s₁ hs₁
    exact (Follows.stores hs₁).bind fun _ s₂ hs₂ => hcapture _ _ s₂ hs₂
  | none =>
    rw [hconfirm] at hadv
    apply Follows.skip (by rw [hadv])
    apply hcapture
    rw [hadv]

theorem follows_jumpApp {slot : Slot} (h : s.phase = .jumpApp slot) :
    Follows (BootManager.jumpApp slot) Ends s := by
  unfold BootManager.jumpApp
  apply Follows.bind_get
  by_cases hsw : (!s.board.hw.srs.sw) = true
  · -- the start is normalised by a reset of its own
    rw [if_pos hsw]
    have hadv : advance s = { s with
        phase := .storing (BootResetReason.normalizeRecord s.board.ram.lifecycle.currentResetReason)
          .normalizing } := by
      unfold advance
      rw [h]
      exact if_pos hsw
    have hstoring : (advance s).phase = .storing
        (BootResetReason.normalizeRecord s.board.ram.lifecycle.currentResetReason) .normalizing := by
      rw [hadv]
    rw [BootResetReason.preserveForNormalization_eq]
    apply Follows.skip (by rw [hadv])
    exact (Follows.stores hstoring).bind fun _ _ hphase => .pure hphase
  · rw [if_neg hsw]
    have hadv : advance s = s.runs (BootLifecycle.prepareBoot slot) s.board fun ok _ =>
        if ok then .handOver slot else .unprepared := by
      unfold advance
      rw [h]
      exact if_neg hsw
    apply (Follows.runs hadv).bind
    intro ok s₁ hs₁
    cases ok with
    | false => exact .pure (.inl hs₁)
    | true =>
      have hhand : Follows (BootLifecycle.writeAppHandover slot)
          (fun _ s' => s'.phase = .launch slot) s₁ := by
        rw [BootLifecycle.writeAppHandover_eq]
        have hreload : advance s₁ = s₁.runs BootLifecycle.reload s₁.board fun _ b =>
            .storing (BootLifecycle.handoverRecord b.ram.lifecycle slot) (.launch slot) := by
          unfold advance
          rw [show s₁.phase = .handOver slot from hs₁]
        exact (Follows.runs hreload).bind fun _ s₂ hs₂ => .bind_getRam (.stores hs₂)
      apply hhand.bind
      intro _ s₂ hs₂
      have hjump : advance s₂ = s₂.runs (BootJump.toSlot slot) s₂.board fun ok _ =>
          if ok then .application slot else .refused := by
        unfold advance
        rw [hs₂]
      apply (Follows.runs hjump).bind
      intro ok s₃ hs₃
      cases ok with
      | false => exact .pure (.inr hs₃)
      | true => exact .pure hs₃

/-- The statements of one boot are those of `BootManager_Run`. -/
theorem follows_run (h : s.phase = .init) : Follows BootManager.run Ends s := by
  have hserver : ∀ s', s'.phase = .programming → Follows (do
      BootM.setManager fun m => { m with selectedTarget := .programming }
      return BootExit.programming) Ends s' := by
    intro s' hs'
    have hadv : advance s' = s'.runs
        (BootM.setManager fun m => { m with selectedTarget := .programming }) s'.board
        fun _ _ => .starting := by
      unfold advance
      rw [hs']
    exact (Follows.runs hadv).bind fun _ _ hphase => .pure hphase
  have hinit : advance s = s.runs BootManager.init s.board fun _ _ => .checkRequest := by
    unfold advance
    rw [h]
  unfold BootManager.run
  apply (Follows.runs hinit).bind
  intro _ s₁ hs₁
  apply (follows_checkRequest hs₁).bind
  intro requested s₂ hs₂
  cases requested with
  | true => exact hserver s₂ hs₂
  | false =>
    have hcheck : advance s₂ = s₂.runs BootManager.checkApp s₂.board fun found _ =>
        match found with
        | some slot => .jumpApp slot
        | none => .programming := by
      unfold advance
      rw [show s₂.phase = .checkApp from hs₂]
    apply (Follows.runs hcheck).bind
    intro found s₃ hs₃
    cases found with
    | some slot => exact follows_jumpApp hs₃
    | none => exact hserver s₃ hs₃

end Resets
