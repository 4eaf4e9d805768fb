import BootloaderV2.Services

/-!
# What a boot and a service are made of

Every flash command is issued by the driver, and everything else a function of a boot does is to set
variables.  A property of both is one of all of them.  One such property is to leave the retained
block alone: only `Boot_ClearSoftwareBootRequest`, `BootResetReason_PreserveForNormalization` and
`BootLifecycle_WriteAppHandover` store to it, also when a flash command is cut.
-/

open BootConfig NorFlash CrashM TwoCopy

/-- A property that a flash command has, and a change of variables. -/
structure Driven (P : {α : Type} → BootM α → Prop) : Prop extends Sequenced P where
  issue : ∀ c, P (BootM.device (issue c))
  modify : ∀ {g : Board → Board}, (∀ b, (g b).dev = b.dev) → (∀ b, (g b).retained = b.retained) →
    P (CrashM.modify g)

section

variable {P : {α : Type} → BootM α → Prop} (h : Driven P)

include h

theorem Driven.setFlash (g : BootFlash.State → BootFlash.State) : P (BootM.setFlash g) :=
  h.modify (by exact fun _ => rfl) (by exact fun _ => rfl)

namespace FlashDriver

variable {address size : Nat} {data : Nat → Byte}

theorem driven_init {active target : SlotId} : P (init active target) := by
  apply h.bind (h.setFlash _)
  intro _
  cases target with
  | none => exact h.pure _
  | some t => exact h.ite (h.pure _) <| h.bind (h.setFlash _) fun _ => h.pure _

theorem driven_withWindow {start stop : Nat} {m : BootM Bool} (hm : P m) :
    P (withWindow start stop m) :=
  h.getRam fun _ => h.bind (h.setFlash _) fun _ => h.bind hm fun _ => h.bind (h.setFlash _) fun _ =>
    h.pure _

theorem driven_erase : P (erase address size) :=
  h.getRam fun _ => h.ite (h.pure _) <| h.bind (h.issue _) fun _ =>
    h.ite (h.pure _) <| h.flash fun _ => h.pure _

theorem driven_programLoop {offset n : Nat} : P (programLoop address data offset n) := by
  induction n generalizing offset with
  | zero => exact h.pure _
  | succ n ih =>
    have hverify : ∀ a d s, P (verify a d s) := fun _ _ _ =>
      h.getRam fun _ => h.ite (h.pure _) <| h.flash fun _ => h.pure _
    unfold programLoop programPhrase
    apply h.bind (h.ite (h.pure _) (h.issue _))
    intro programmed
    exact h.ite (h.pure _) <| h.bind (hverify _ _ _) fun _ => h.ite (h.pure _) ih

theorem driven_program : P (program address data size) :=
  h.getRam fun _ => h.ite (h.pure _) (driven_programLoop h)

end FlashDriver

open FlashDriver

/-- A write through a port whose accesses have the property. -/
theorem TwoCopy.driven_writeCopy {R ε : Type} {F : Format R} {port : Port Board ε} {k : Fin 2}
    {next : R} (herase : ∀ k, P (port.erase k))
    (hprogram : ∀ k offset data, P (port.program k offset data)) :
    P (writeCopy F port k next) := by
  have hphrases : ∀ data n offset, P (programPhrases port k data offset n) := by
    intro data n
    induction n with
    | zero => exact fun _ => h.pure _
    | succ n ih => exact fun _ => h.bind (hprogram _ _ _) fun _ => h.ite (ih _) (h.pure _)
  apply h.ite (h.pure _)
  apply h.bind (herase k)
  intro erased
  apply h.ite (h.pure _)
  apply h.bind (hphrases _ _ _)
  intro programmed
  apply h.ite (h.pure _)
  exact h.read fun _ => h.ite (h.pure _) (h.pure _)

theorem BootJournal.driven_commitRecord {record : BootUpdateJournal} {first : Bool} :
    P (commitRecord record first) := by
  have hwrite : ∀ k next, P (writeCopy recordFormat BootJournalStorage.port k next) := fun k next =>
    driven_writeCopy h
      (fun _ => h.getRam fun _ => h.ite (h.pure _) <| driven_withWindow h (driven_erase h))
      fun _ _ _ => h.getRam fun _ => h.ite (h.pure _) <| h.ite (h.pure _) <|
        driven_withWindow h (driven_program h)
  apply h.flash
  intro mem
  split
  · exact h.ite (h.pure _) (hwrite _ _)
  · exact h.ite (h.pure _) (hwrite _ _)

theorem BootMetadata.driven_writeRecord {slot : Slot} {record : BootSlotMetadata}
    {expected : BootMetadataStatus} {programming : Bool} :
    P (writeRecord slot record expected programming) := by
  have hwrite : ∀ k next,
      P (writeCopy (recordFormat slot) (BootMetadataStorage.port slot) k next) := fun k next =>
    driven_writeCopy h
      (fun _ => h.getRam fun _ => h.ite (h.pure _) <| driven_withWindow h (driven_erase h))
      fun _ _ _ => h.getRam fun _ => h.ite (h.pure _) <| h.ite (h.pure _) <|
        driven_withWindow h (driven_program h)
  apply h.flash
  intro mem
  apply h.ite (h.pure _)
  split
  · exact h.ite (h.pure _) (hwrite _ _)
  · exact h.ite (h.pure _) (hwrite _ _)

theorem Driven.recorded : Recorded P where
  toSequenced := h.toSequenced
  setUpdate _ := h.modify (by exact fun _ => rfl) (by exact fun _ => rfl)
  setLifecycle _ := h.modify (by exact fun _ => rfl) (by exact fun _ => rfl)
  setManager _ := h.modify (by exact fun _ => rfl) (by exact fun _ => rfl)
  commitRecord _ _ := BootJournal.driven_commitRecord h
  writeRecord _ _ _ _ := BootMetadata.driven_writeRecord h

theorem Driven.managed : Managed P := BootLifecycle.stored_managed h.recorded.stored

namespace BootFlash

theorem driven_configureSlots {active target : SlotId} : P (configureSlots active target) :=
  h.bind (h.setFlash _) fun _ => h.getRam fun _ => h.ite (h.pure _) <|
    h.bind (driven_init h) fun _ => h.ite (h.pure _) <| h.bind (h.setFlash _) fun _ => h.pure _

theorem driven_erase {address size : Nat} : P (erase address size) :=
  h.getRam fun _ => h.ite (h.pure _) (FlashDriver.driven_erase h)

theorem driven_program {address size : Nat} {data : Nat → Byte} : P (program address data size) :=
  h.getRam fun _ => h.ite (h.pure _) (FlashDriver.driven_program h)

theorem driven_boot : P init :=
  h.bind (h.setFlash _) fun _ => h.bind (h.setFlash _) fun _ => h.bind (driven_init h) fun _ =>
    h.setFlash _

end BootFlash

theorem BootImageInstall.driven_validateAndPublish {active target : SlotId}
    {header : BootImageHeader} : P (validateAndPublish active target header) := by
  apply h.flash
  intro mem
  refine h.ite (h.pure _) <| h.ite (h.pure _) ?_
  refine h.bind (BootFlash.driven_configureSlots h) fun _ => h.ite (h.pure _) ?_
  refine h.bind (BootFlash.driven_erase h) fun _ => h.ite (h.pure _) ?_
  refine h.bind (BootFlash.driven_program h) fun _ => h.ite (h.pure _) ?_
  exact h.flash fun _ => h.pure _

theorem BootManager.driven_init : P init :=
  h.read fun _ => h.bind (BootFlash.driven_boot h) fun _ =>
    h.bind (BootUpdate.recorded_loadRecoveryState h.recorded
      (BootImageInstall.driven_validateAndPublish h)) fun _ =>
    h.bind (h.managed.init _) fun _ => h.managed.setManager _

end

/-! ## The retained block -/

/-- `m` ends with the block as it was. -/
def KeepsRetained {α : Type} (m : BootM α) : Prop :=
  ∀ b, wp m (fun _ b' => b'.retained = b.retained) (fun b' => b'.retained = b.retained) b

namespace KeepsRetained

variable {α β : Type} {m : BootM α} {f : α → BootM β}

theorem bind (hm : KeepsRetained m) (hf : ∀ a, KeepsRetained (f a)) : KeepsRetained (m >>= f) := by
  intro b
  apply wp_seq (hm b)
  · intro a b' hb'
    exact wp_mono (hf a b') (fun _ _ h => h.trans hb') fun _ h => h.trans hb'
  · exact fun _ h => h

/-- The block, however the run ends. -/
theorem state (h : KeepsRetained m) (b : Board) : (m b).state.retained = b.retained :=
  @wp_state Board α m b (fun b' => b'.retained = b.retained) (h b)

theorem modify {g : Board → Board} (h : ∀ b, (g b).retained = b.retained) :
    KeepsRetained (CrashM.modify g) := h

theorem device {m : CrashM (Device Note) α} : KeepsRetained (BootM.device m) := by
  intro b
  unfold BootM.device
  rw [wp_zoom]
  unfold wp
  cases m b.dev <;> rfl

theorem driven : Driven @KeepsRetained where
  pure _ _ := rfl
  bind := bind
  get _ := rfl
  issue _ := device
  modify _ h := modify h

theorem managed : Managed @KeepsRetained := driven.managed

theorem served : Served @KeepsRetained where
  toManaged := managed
  setProgramming _ := modify fun _ => rfl
  setSecurity _ := modify fun _ => rfl
  setUds _ := modify fun _ => rfl
  transmit := fun _ => rfl
  configureSlots _ _ := BootFlash.driven_configureSlots driven
  erase _ _ := BootFlash.driven_erase driven
  program _ _ _ := BootFlash.driven_program driven
  beginUpdate _ _ _ := BootUpdate.recorded_beginUpdate driven.recorded
  setState _ := BootUpdate.recorded_setState driven.recorded
  setProgress _ _ := BootUpdate.recorded_setProgress driven.recorded
  markTransferComplete _ _ := BootUpdate.recorded_markTransferComplete driven.recorded
  markVerified _ := BootUpdate.recorded_markVerified driven.recorded
  abort _ := BootUpdate.recorded_abort driven.recorded
  initializeJournal _ := BootUpdate.recorded_initializeJournal driven.recorded

end KeepsRetained

/-- Recovery reads the block only. -/
theorem BootManager.keepsRetained_init : KeepsRetained init := driven_init KeepsRetained.driven

/-! ## A cut at the first command -/

/-- When the power is cut before the first byte of the first command, `m` comes to its end only
    without one, and the flash is as it was in any case. -/
def Halts {α : Type} (m : BootM α) : Prop := ∀ b, b.dev.fates.head? = some (.cut 0) →
  wp m (fun _ b' => b'.dev = b.dev) (fun b' => b'.mem = b.mem) b

namespace Halts

variable {α β : Type} {m : BootM α} {f : α → BootM β}

theorem bind (hm : Halts m) (hf : ∀ a, Halts (f a)) : Halts (m >>= f) := by
  intro b hcut
  apply wp_seq (hm b hcut)
  · intro a b' hb'
    refine wp_mono (hf a b' (hb' ▸ hcut)) (fun _ _ h => h.trans hb') fun _ h => h.trans ?_
    exact congrArg Device.mem hb'
  · exact fun _ h => h

theorem issue (c : Command) : Halts (BootM.device (NorFlash.issue c)) := by
  intro b hcut
  have hnothing : c.cutSize 0 = 0 := by cases c <;> rfl
  refine BootM.wp_device.2 ?_
  unfold wp NorFlash.issue
  rw [hcut]
  show (b.dev.after c (c.cutSize 0)).mem = b.dev.mem
  rw [hnothing, Device.after_mem, Command.effect_zero]

theorem driven : Driven @Halts where
  pure _ _ _ := rfl
  bind := bind
  get _ _ := rfl
  issue := issue
  modify h _ b _ := h b

end Halts

/-- `BootManager_Init` with something to do, when the power is cut at once. -/
theorem BootManager.init_cut {b : Board} (hcut : b.dev.fates.head? = some (.cut 0))
    (hdo : ∀ b', init b = .done () b' → b'.mem ≠ b.mem) :
    ∃ b', init b = .cut b' ∧ b'.mem = b.mem := by
  have hhalts := driven_init Halts.driven b hcut
  unfold wp at hhalts
  cases hinit : init b with
  | done _ b' =>
    rw [hinit] at hhalts
    exact absurd (congrArg Device.mem hhalts) (hdo b' hinit)
  | cut b' =>
    rw [hinit] at hhalts
    exact ⟨b', rfl, hhalts⟩
