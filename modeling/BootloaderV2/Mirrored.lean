import BootloaderV2.Actions
import BootloaderV2.Commission
import BootloaderV2.Services

/-!
# The journal in RAM

From a boot that finds a journal on, every function takes actions only, so that the variables agree
with the flash until the storage of the journal is given up, and from then on nothing is written.
-/

open BootConfig NorFlash CrashM TwoCopy

open BootJournal (Current Keeping WellFormed)

variable {b : Board} {address size : Nat}

/-! ## Writing to a slot -/

/-- A range that the facade accepts lies in one slot. -/
theorem BootFlash.exists_slot_of_valid {f : BootFlash.State}
    (h : isRangeValid f address size = true) :
    ∃ s : Slot, s.base ≤ address ∧ address + size ≤ s.base + slotSize := by
  unfold isRangeValid at h
  simp only [Bool.and_eq_true] at h
  obtain ⟨t, ht⟩ := Option.isSome_iff_exists.1 h.1.2
  have hrange := h.2
  rw [ht, containsRange_iff] at hrange
  exact ⟨t, hrange.2⟩

theorem BootFlash.traced_erase (hfault : b.ram.update.storageFault = false) :
    Traced (erase address size) (fun _ b' => ∃ d, b' = b.setDev d) b := by
  refine .of_slot hfault ((issues_erase fun n hvalid => ?_).mono ?_)
  · exact exists_slot_of_valid hvalid
  · rintro ok b' ⟨d, rfl, -⟩
    exact ⟨d, rfl⟩

theorem BootFlash.traced_program {data : Nat → Byte}
    (hfault : b.ram.update.storageFault = false) :
    Traced (program address data size) (fun _ b' => ∃ d, b' = b.setDev d) b := by
  refine .of_slot hfault ((issues_program fun m n o p _ hvalid ho => ?_).mono ?_)
  · obtain ⟨s, hlo, hhi⟩ := exists_slot_of_valid hvalid
    exact ⟨s, le_trans hlo (Nat.le_add_right _ _), show _ + o + flashPhraseSize ≤ _ by omega⟩
  · rintro ok b' ⟨d, rfl, -⟩
    exact ⟨d, rfl⟩

theorem BootIsoTp.traced_transmit :
    Traced transmit (fun _ b' => b'.ram = b.ram) b := by
  refine .of_metadata ((BootProgramming.issues_transmit (R := MetadataOnly)).mono ?_)
  rintro ok b' ⟨-, hram⟩
  exact ⟨by rw [hram], .of_update (by rw [hram]), hram⟩

theorem BootIsoTp.minds_transmit : Minds transmit :=
  fun _ _ => traced_transmit.mono fun _ _ _ => trivial

theorem BootFlash.minds_configureSlots {active target : SlotId} :
    Minds (configureSlots active target) := by
  have hinit : Minds (FlashDriver.init active target) := by
    refine (Minds.setFlash _ (by exact fun _ => rfl)).bind fun _ => ?_
    cases target with
    | none => exact minds_closed.pure _
    | some t =>
      exact minds_closed.ite (minds_closed.pure _) <|
        (Minds.setFlash _ (by exact fun _ => rfl)).bind fun _ => minds_closed.pure _
  exact (Minds.setFlash _ (by exact fun _ => rfl)).bind fun _ => minds_closed.getRam fun _ =>
    minds_closed.ite (minds_closed.pure _) <| hinit.bind fun _ =>
      minds_closed.ite (minds_closed.pure _) <| (Minds.setFlash _ (by exact fun _ => rfl)).bind fun _ =>
        minds_closed.pure _

/-- A state that has been set leaves the storage sound. -/
theorem BootUpdate.traced_setState {q : BootUpdateState} (hb : Mirrored b)
    (hq : WellFormed.Settable q) :
    Traced (setState q) (fun ok b' => ok = true → b'.ram.update.storageFault = false) b := by
  refine ((minds_setState hq b hb).and_issues issues_setState).mono ?_
  rintro ok b' ⟨-, d, u, rfl, -, hset, -⟩ hok
  have hcan := (hset hok).2.can
  unfold canContinue at hcan
  simp only [Bool.and_eq_true, Bool.not_eq_true'] at hcan
  exact hcan.2

/-! ## The programming server -/

namespace BootProgramming

theorem fault_of_access (h : accessCheck b.ram = 0) : b.ram.update.storageFault = false := by
  have hcan := canContinue_of_access h
  unfold BootUpdate.canContinue at hcan
  simp only [Bool.and_eq_true, Bool.not_eq_true'] at hcan
  exact hcan.2

theorem minds_abort : Minds abort := .setProgramming _

/-- A failure that gives up the transaction. -/
theorem minds_refuse {reason : BootUpdateResult} {r : Byte} :
    Minds (do let _ ← BootUpdate.abort reason; return r) :=
  BootUpdate.minds_abort.bind fun _ => minds_closed.pure _

theorem minds_giveUp {reason : BootUpdateResult} {r : Byte} :
    Minds (do let _ ← BootUpdate.abort reason; abort; return r) :=
  BootUpdate.minds_abort.bind fun _ => minds_abort.bind fun _ => minds_closed.pure _

theorem traced_eraseLoop {header current n : Nat} (hb : Mirrored b)
    (hfault : b.ram.update.storageFault = false) :
    Traced (eraseLoop header current n) (fun _ _ => True) b := by
  induction n generalizing b current with
  | zero => exact .pure trivial
  | succ n ih =>
    unfold eraseLoop
    refine .ite (fun _ => ih hb hfault) fun _ => ?_
    refine BootIsoTp.traced_transmit.bind fun ok b₁ h₁ hram => ?_
    have hfault₁ : b₁.ram.update.storageFault = false := by rw [hram, hfault]
    have hb₁ := Acts.mirrored h₁ hb
    refine .ite (fun _ => .pure trivial) fun _ => ?_
    refine (BootFlash.traced_erase hfault₁).bind ?_
    rintro ok b₂ h₂ ⟨d, rfl⟩
    have hb₂ := Acts.mirrored h₂ hb₁
    exact .ite (fun _ => minds_refuse _ hb₂) fun _ => ih hb₂ hfault₁

theorem minds_eraseTarget {active target : SlotId} :
    Minds (eraseTarget active target address size) := by
  refine BootUpdate.minds_beginUpdate.bind fun ok => minds_closed.ite (minds_closed.pure _) ?_
  intro b hb
  refine (BootUpdate.traced_setState hb (by decide)).bind fun ok b₁ h₁ hset => ?_
  have hb₁ := Acts.mirrored h₁ hb
  refine .ite (fun _ => .pure trivial) fun hok => ?_
  have hfault : b₁.ram.update.storageFault = false := hset (by simpa using hok)
  refine (BootFlash.traced_erase hfault).bind ?_
  rintro ok b₂ h₂ ⟨d₂, rfl⟩
  have hb₂ := Acts.mirrored h₂ hb₁
  refine .ite (fun _ => minds_refuse _ hb₂) fun _ => ?_
  refine (BootFlash.traced_program (b := b₁.setDev d₂) hfault).bind ?_
  rintro ok b₃ h₃ ⟨d₃, rfl⟩
  have hb₃ := Acts.mirrored h₃ hb₂
  refine .ite (fun _ => minds_refuse _ hb₃) fun _ => ?_
  refine (traced_eraseLoop hb₃ hfault).bind fun r b₄ h₄ _ => ?_
  have hrest : Minds (do
      if !(← BootUpdate.setState .downloadReady) then return 0x72
      BootM.setProgramming fun c =>
        { c with targetAddress := address, targetSize := size, eraseComplete := true }
      return (0 : Byte)) :=
    (BootUpdate.minds_setState (by decide)).bind fun _ => minds_closed.ite (minds_closed.pure _) <|
      (Minds.setProgramming _).bind fun _ => minds_closed.pure _
  exact .ite (fun _ => .pure trivial) fun _ => hrest b₄ (Acts.mirrored h₄ hb₃)

/-- Service FF00. -/
theorem minds_erase : Minds (erase address size) :=
  minds_closed.getRam fun _ => minds_closed.ite (minds_closed.pure _) <|
    minds_closed.ite (minds_closed.pure _) <| minds_closed.ite (minds_closed.pure _) <|
    minds_closed.ite (minds_closed.pure _) <| minds_abort.bind fun _ =>
    BootFlash.minds_configureSlots.bind fun _ => minds_closed.ite (minds_closed.pure _) <|
    BootIsoTp.minds_transmit.bind fun _ => minds_closed.ite (minds_closed.pure _) minds_eraseTarget

/-- Service 34. -/
theorem minds_download : Minds (download address size) :=
  minds_closed.getRam fun _ => minds_closed.ite (minds_closed.pure _) <|
    minds_closed.ite (minds_closed.pure _) <| minds_closed.ite (minds_closed.pure _) <|
    (BootUpdate.minds_setState (by decide)).bind fun _ => minds_closed.ite (minds_closed.pure _) <|
    (Minds.setProgramming _).bind fun _ => minds_closed.pure _

theorem traced_setProgramming {f : Context → Context} :
    Traced (BootM.setProgramming f) (fun _ b' => b'.ram.update = b.ram.update) b :=
  .of_ram { b.ram with programming := f b.ram.programming } b.retained rfl rfl ⟨rfl, rfl, rfl⟩ rfl

/-- A phrase is written with the variables of the journal left alone. -/
theorem traced_flushPhrase (hfault : b.ram.update.storageFault = false) :
    Traced flushPhrase (fun _ b' => b'.ram.update = b.ram.update) b := by
  have hset : ∀ {f : Context → Context} {b' : Board}, b'.ram.update = b.ram.update →
      Traced (do BootM.setProgramming f; return true)
        (fun _ b' => b'.ram.update = b.ram.update) b' := by
    intro f b' hu
    exact traced_setProgramming.bind fun _ b'' _ hu' => .pure (hu'.trans hu)
  unfold flushPhrase
  rw [Traced.bind_getRam]
  dsimp only
  refine .ite (fun _ => .pure rfl) fun _ => .ite (fun _ => hset rfl) fun _ =>
    .ite (fun _ => .pure rfl) fun _ => ?_
  refine (BootFlash.traced_program hfault).bind ?_
  rintro ok b' - ⟨d, rfl⟩
  exact .ite (fun _ => .pure rfl) fun _ => hset rfl

theorem traced_transferLoop {data : List Byte} (hfault : b.ram.update.storageFault = false) :
    Traced (transferLoop data) (fun _ b' => b'.ram.update = b.ram.update) b := by
  induction data generalizing b with
  | nil => exact .pure rfl
  | cons byte bytes ih =>
    have hrest : ∀ b', b'.ram.update = b.ram.update →
        Traced (transferLoop bytes) (fun _ b'' => b''.ram.update = b.ram.update) b' := by
      intro b' hu
      exact (ih (by rw [hu, hfault])).mono fun _ _ h => h.trans hu
    unfold transferLoop
    refine traced_setProgramming.bind fun _ b₁ _ hu => ?_
    rw [Traced.bind_getRam]
    refine .ite (fun _ => ?_) fun _ => hrest b₁ hu
    refine (traced_flushPhrase (by rw [hu, hfault])).bind fun ok b₂ _ hu₂ => ?_
    exact .ite (fun _ => .pure (hu₂.trans hu)) fun _ => hrest b₂ (hu₂.trans hu)

/-- Service 36. -/
theorem minds_transfer {sequence : Byte} {data : List Byte} : Minds (transfer sequence data) := by
  intro b hb
  unfold transfer
  rw [Traced.bind_getRam]
  dsimp only
  refine .ite (fun _ => .pure trivial) fun hacc => .ite (fun _ => .pure trivial) fun _ =>
    .ite (fun _ => .pure trivial) fun _ => .ite (fun _ => .pure trivial) fun _ =>
    .ite (fun _ => .pure trivial) fun _ => ?_
  refine (traced_transferLoop (fault_of_access (not_not.1 hacc))).bind fun ok b₁ h₁ _ => ?_
  have hb₁ := Acts.mirrored h₁ hb
  have hrest : Minds (do
      BootM.setProgramming fun c => { c with receivedSize := c.receivedSize + data.length }
      let ram ← BootM.getRam
      if !(← BootUpdate.setProgress ram.programming.programmedSize sequence) then
        abort
        return 0x72
      BootM.setProgramming fun c =>
        { c with expectedBlockSequenceCounter := c.expectedBlockSequenceCounter + 1 }
      return (0 : Byte)) :=
    (Minds.setProgramming _).bind fun _ => minds_closed.getRam fun _ =>
      BootUpdate.minds_setProgress.bind fun _ =>
        minds_closed.ite (minds_abort.bind fun _ => minds_closed.pure _) <|
          (Minds.setProgramming _).bind fun _ => minds_closed.pure _
  exact .ite (fun _ => minds_giveUp b₁ hb₁) fun _ => hrest b₁ hb₁

/-- Service 37. -/
theorem minds_exit : Minds exit :=
  minds_closed.getRam fun _ => minds_closed.ite (minds_closed.pure _) <|
    minds_closed.ite (minds_closed.pure _) <| BootUpdate.minds_markTransferComplete.bind fun _ =>
    minds_closed.ite (minds_closed.pure _) <| (Minds.setProgramming _).bind fun _ =>
    minds_closed.pure _

theorem minds_verifyPublished {c : Context} : Minds (verifyPublished c) :=
  minds_closed.flash fun _ => (Minds.setProgramming _).bind fun _ =>
    minds_closed.ite minds_refuse <| BootUpdate.minds_markVerified.bind fun _ =>
    minds_closed.ite (minds_closed.pure _) <| (Minds.setProgramming _).bind fun _ =>
    minds_closed.pure _

theorem traced_verifyPublish {c : Context} (hb : Mirrored b)
    (hfault : b.ram.update.storageFault = false) :
    Traced (verifyPublish c) (fun _ _ => True) b := by
  unfold verifyPublish
  refine (BootFlash.traced_erase hfault).bind ?_
  rintro ok b₁ h₁ ⟨d₁, rfl⟩
  have hb₁ := Acts.mirrored h₁ hb
  refine .ite (fun _ => minds_giveUp _ hb₁) fun _ => ?_
  refine (BootFlash.traced_program (b := b.setDev d₁) hfault).bind ?_
  rintro ok b₂ h₂ ⟨d₂, rfl⟩
  have hb₂ := Acts.mirrored h₂ hb₁
  refine .ite (fun _ => minds_giveUp _ hb₂) fun _ => ?_
  refine BootIsoTp.traced_transmit.bind fun ok b₃ h₃ _ => ?_
  exact .ite (fun _ => .pure trivial) fun _ => minds_verifyPublished b₃ (Acts.mirrored h₃ hb₂)

/-- Service FF01. -/
theorem minds_verify : Minds verify := by
  refine minds_closed.getRam fun _ => minds_closed.ite (minds_closed.pure _) <|
    minds_closed.ite (minds_closed.pure _) <| BootIsoTp.minds_transmit.bind fun _ =>
    minds_closed.ite (minds_closed.pure _) fun b hb => ?_
  refine (BootUpdate.traced_setState hb (by decide)).bind fun ok b₁ h₁ hset => ?_
  have hb₁ := Acts.mirrored h₁ hb
  refine .ite (fun _ => .pure trivial) fun hok => ?_
  have hfault : b₁.ram.update.storageFault = false := hset (by simpa using hok)
  rw [Traced.bind_flash]
  refine traced_setProgramming.bind fun _ b₂ h₂ hu => ?_
  have hb₂ := Acts.mirrored h₂ hb₁
  refine .ite (fun _ => minds_refuse b₂ hb₂) fun _ => .ite (fun _ => minds_refuse b₂ hb₂) fun _ => ?_
  refine BootIsoTp.traced_transmit.bind fun ok b₃ h₃ hram => ?_
  refine .ite (fun _ => .pure trivial) fun _ => traced_verifyPublish (Acts.mirrored h₃ hb₂) ?_
  rw [hram, hu, hfault]

end BootProgramming

/-! ## The services -/

/-- While there is a journal none is initialised. -/
theorem BootUpdate.minds_initializeJournal {active : SlotId} : Minds (initializeJournal active) := by
  intro b hb
  obtain ⟨j, k, hl⟩ := hb.stored
  unfold initializeJournal
  rw [Traced.bind_flash, hl]
  exact .pure trivial

/-- What every service is made of. -/
theorem minds_answered : Answered @Minds where
  toManaged := BootLifecycle.stored_managed minds_closed.stored
  setSecurity _ := .setSecurity _
  setUds _ := .setUds _
  transmit := BootIsoTp.minds_transmit
  setAccess _ _ := .setProgramming _
  clear := BootProgramming.minds_abort
  restart _ _ := .setProgramming _
  erase _ _ := BootProgramming.minds_erase
  download _ _ := BootProgramming.minds_download
  transfer _ _ := BootProgramming.minds_transfer
  exit := BootProgramming.minds_exit
  verify := BootProgramming.minds_verify
  abort _ := BootUpdate.minds_abort
  initializeJournal _ := BootUpdate.minds_initializeJournal

namespace BootUds

variable {q : List Byte}

theorem minds_init : Minds init := answered_init minds_answered

theorem minds_processRequest : Minds (processRequest q) := answered_processRequest minds_answered

theorem minds_mainFunction : Minds mainFunction := answered_mainFunction minds_answered

end BootUds

/-! ## A boot -/

/-- `BootImageInstall_ValidateAndPublish`. -/
theorem BootImageInstall.traced_validateAndPublish {active target : SlotId}
    {header : BootImageHeader} (hb : Mirrored b) (hfault : b.ram.update.storageFault = false) :
    Traced (validateAndPublish active target header) (fun _ _ => True) b := by
  unfold validateAndPublish
  dsimp only
  rw [Traced.bind_flash]
  refine .ite (fun _ => .pure trivial) fun _ => .ite (fun _ => .pure trivial) fun _ => ?_
  refine ((BootFlash.minds_configureSlots b hb).and_issues
    (BootProgramming.issues_configureSlots (R := fun _ _ _ => True))).bind ?_
  rintro ok b₁ h₁ ⟨-, f, hf⟩
  have hfault₁ : b₁.ram.update.storageFault = false := by
    rw [hf]
    exact hfault
  refine .ite (fun _ => .pure trivial) fun _ => (BootFlash.traced_erase hfault₁).bind ?_
  rintro ok b₂ h₂ ⟨d₂, rfl⟩
  refine .ite (fun _ => .pure trivial) fun _ =>
    (BootFlash.traced_program (b := b₁.setDev d₂) hfault₁).bind ?_
  rintro ok b₃ h₃ ⟨d₃, rfl⟩
  refine .ite (fun _ => .pure trivial) fun _ => ?_
  rw [Traced.bind_flash]
  exact .pure trivial

namespace BootUpdate

theorem traced_revalidate {action : BootRecoveryAction} (hb : Mirrored b)
    (hfault : b.ram.update.storageFault = false) :
    Traced (revalidate action) (fun _ _ => True) b := by
  unfold revalidate
  rw [Traced.bind_getRam]
  refine (BootImageInstall.traced_validateAndPublish hb hfault).bind fun ok b₁ h₁ _ => ?_
  have hb₁ := Acts.mirrored h₁ hb
  refine .ite (fun _ => ?_) fun _ => .ite (fun _ => ?_) fun _ => minds_markVerified b₁ hb₁
  · exact minds_abort.bind (fun _ => minds_closed.pure _) b₁ hb₁
  · exact (Minds.setRevalidated true).bind (fun _ => minds_closed.pure _) b₁ hb₁

/-- The board once `BootUpdate_LoadRecoveryState` has read the journal. -/
def recovering (b : Board) (j : BootUpdateJournal) : Board :=
  { b with ram := { b.ram with update := ⟨j, true, false, false⟩ } }

/-- What follows is traced from there. -/
theorem wp_loadRecoveryState {k : Fin 2} {j : BootUpdateJournal}
    (hl : BootJournal.loadLatest b.mem = .valid k j) (hb : Mirrored (recovering b j)) :
    wp loadRecoveryState (fun _ b' => Acts (recovering b j) b' ∧ True)
      (Interrupted (recovering b j)) b := by
  have hrest : ∀ action, Traced
      (if (recovering b j).ram.update.current.state = BootUpdateState.transferComplete.code then do
        if !(← setState .verifying) then return false
        revalidate action
      else revalidate action) (fun _ _ => True) (recovering b j) := by
    intro action
    refine .ite (fun _ => ?_) fun _ => traced_revalidate hb rfl
    refine (traced_setState hb (by decide)).bind fun ok b₁ h₁ hset => ?_
    exact .ite (fun _ => .pure trivial) fun hok =>
      traced_revalidate (Acts.mirrored h₁ hb) (hset (by simpa using hok))
  unfold loadRecoveryState
  rw [wp_bind, BootM.wp_flash, hl]
  dsimp only
  rw [wp_bind, BootM.wp_setUpdate]
  unfold recoverLoaded
  rw [wp_bind, BootM.wp_getRam]
  dsimp only
  split
  · exact Traced.pure (b := recovering b j) trivial
  · exact Traced.pure (b := recovering b j) trivial
  · exact minds_abort _ hb
  · exact hrest _

end BootUpdate

namespace BootManager

/-- The variables of the flash after `BootFlash_Init`. -/
def driverState : BootFlash.State :=
  ⟨true, none, none, slotABaseAddress, slotABaseAddress + slotSize⟩

theorem flashInit_eq : BootFlash.init b =
    .done () { b with ram := { b.ram with flash := driverState } } := rfl

/-- The board on which a boot has found the record `j` in its journal. -/
def opened (b : Board) (j : BootUpdateJournal) : Board :=
  BootUpdate.recovering { b with ram := { b.ram with flash := driverState } } j

theorem mirrored_opened {j : BootUpdateJournal} (hj : Current b.mem j) : Mirrored (opened b j) :=
  ⟨rfl, rfl, ⟨j, hj⟩, fun _ => hj⟩

/-- A whole boot is traced from the record it finds. -/
theorem wp_run {j : BootUpdateJournal} (hj : Current b.mem j) :
    wp run (fun _ b' => Acts (opened b j) b' ∧ True) (Interrupted (opened b j)) b := by
  obtain ⟨k, hl⟩ := hj
  have hb := mirrored_opened ⟨k, hl⟩
  -- what follows the recovery of the journal
  have hlater : ∀ {α β : Type} {m : BootM α} {f : α → BootM β} {c : Board},
      wp m (fun _ b' => Acts (opened b j) b' ∧ True) (Interrupted (opened b j)) c →
      (∀ a, Minds (f a)) →
      wp (m >>= f) (fun _ b' => Acts (opened b j) b' ∧ True) (Interrupted (opened b j)) c := by
    intro α β m f c hm hf
    refine wp_seq hm ?_ fun _ h => h
    rintro a b' ⟨hacts, -⟩
    refine wp_mono (hf a b' (Acts.mirrored hacts hb)) (fun _ _ h => ⟨hacts.trans h.1, trivial⟩) ?_
    rintro b'' ⟨b₁, hb₁, hev⟩
    exact ⟨b₁, hacts.trans hb₁, hev⟩
  unfold run init
  refine hlater ?_ fun _ => booting_afterInit minds_closed.booting
  rw [wp_bind, wp_get, wp_bind]
  unfold wp
  rw [flashInit_eq]
  refine hlater (BootUpdate.wp_loadRecoveryState hl hb) fun _ => ?_
  exact Minds.bind (BootLifecycle.stored_init minds_closed.stored) fun _ => minds_closed.setManager _

end BootManager

/-! ## Up to the next boot -/

/-- One operation of the server: its start, a request, or a turn of the timer. -/
inductive Operates : Board → Board → Prop where
  | start {b b' : Board} (h : BootUds.init b = .done () b') : Operates b b'
  | request {b b' : Board} {q : List Byte} {r : Option (List Byte)} (e : Turn)
    (h : BootUds.processRequest q (e.on b) = .done r b') : Operates b b'
  | tick {b b' : Board} (e : Turn) (h : BootUds.mainFunction (e.on b) = .done () b') : Operates b b'

/-- The operations of the server one after another. -/
abbrev Uptime : Board → Board → Prop := Relation.ReflTransGen Operates

/-- What an operation on `b` keeps to: it takes actions, gives the storage up only for a command that
    failed, and once it is given up writes neither to the journal nor to a slot. -/
structure Conforms {α : Type} (m : BootM α) (b : Board) : Prop where
  acts : ∀ a b', m b = .done a b' → Acts b b'
  interrupted : ∀ b', m b = .cut b' → Interrupted b b'
  failed : ∀ a b', m b = .done a b' → b.ram.update.storageFault = false →
    b'.ram.update.storageFault = true → b.dev.FailedTo b'.dev
  frozen : b.ram.update.storageFault = true → Evolves MetadataOnly b.dev (m b).state.dev ∧
    ∀ a b', m b = .done a b' → SameJournal b b'

theorem Minds.conforms {α : Type} {m : BootM α} (h : Minds m) (hb : Mirrored b) : Conforms m b := by
  have hdone : ∀ a b', m b = .done a b' → Acts b b' := fun a b' hrun =>
    (wp_of_eq_done (h b hb) hrun).1
  have hcut : ∀ b', m b = .cut b' → Interrupted b b' := fun b' hrun => wp_of_eq_cut (h b hb) hrun
  refine ⟨hdone, hcut, fun a b' hrun => Acts.failedTo (hdone a b' hrun), fun hf => ⟨?_, ?_⟩⟩
  · cases hrun : m b with
    | done a b' => exact (Acts.frozen (hdone a b' hrun) hf).2
    | cut b' =>
      obtain ⟨b₁, hacts, hev⟩ := hcut b' hrun
      obtain ⟨hsame, hev₁⟩ := Acts.frozen hacts hf
      exact hev₁.trans (hev.mono fun _ _ _ hc => hc (hsame.fault.trans hf))
  · exact fun a b' hrun => (Acts.frozen (hdone a b' hrun) hf).1

theorem Turn.mirrored (e : Turn) (h : Mirrored b) : Mirrored (e.on b) :=
  h.congr rfl rfl ⟨rfl, rfl, rfl⟩

namespace Operates

variable {b' : Board}

theorem mirrored (h : Operates b b') (hb : Mirrored b) : Mirrored b' := by
  cases h with
  | start h => exact Acts.mirrored ((BootUds.minds_init.conforms hb).acts _ _ h) hb
  | request e h =>
    have he := e.mirrored hb
    exact Acts.mirrored ((BootUds.minds_processRequest.conforms he).acts _ _ h) he
  | tick e h =>
    have he := e.mirrored hb
    exact Acts.mirrored ((BootUds.minds_mainFunction.conforms he).acts _ _ h) he

theorem sameJournal (h : Operates b b') (hb : Mirrored b)
    (hf : b.ram.update.storageFault = true) : SameJournal b b' := by
  cases h with
  | start h => exact ((BootUds.minds_init.conforms hb).frozen hf).2 _ _ h
  | request e h =>
    have hs := ((BootUds.minds_processRequest.conforms (e.mirrored hb)).frozen hf).2 _ _ h
    exact ⟨hs.valid, hs.fault, hs.current⟩
  | tick e h =>
    have hs := ((BootUds.minds_mainFunction.conforms (e.mirrored hb)).frozen hf).2 _ _ h
    exact ⟨hs.valid, hs.fault, hs.current⟩

end Operates

theorem Uptime.mirrored {b' : Board} (h : Uptime b b') (hb : Mirrored b) : Mirrored b' := by
  induction h with
  | refl => exact hb
  | tail _ hop ih => exact hop.mirrored ih

theorem Uptime.sameJournal {b' : Board} (h : Uptime b b') (hb : Mirrored b)
    (hf : b.ram.update.storageFault = true) : SameJournal b b' := by
  induction h with
  | refl => exact .refl b
  | tail hup hop ih =>
    have hs := hop.sameJournal (Uptime.mirrored hup hb) (ih.fault.trans hf)
    exact ⟨hs.valid.trans ih.valid, hs.fault.trans ih.fault, hs.current.trans ih.current⟩

/-- The journal in RAM.  A boot that finds a record takes actions from there on, and so does every
    operation up to the next boot: they save records with valid fields only, give the storage up for
    a failing command only, and then write nothing.  In between the variables are those of the
    record on flash, and once the storage is given up they stay as they are. -/
theorem BootUpdate.journal_mirrored {b₀ : Board} {j : BootUpdateJournal} (hj : Current b₀.mem j) :
    (∀ b, BootManager.run b₀ = .cut b → Interrupted (BootManager.opened b₀ j) b) ∧
    ∀ exit b₁, BootManager.run b₀ = .done exit b₁ →
      Acts (BootManager.opened b₀ j) b₁ ∧
      (b₁.ram.update.storageFault = true → b₀.dev.FailedTo b₁.dev) ∧
      ∀ b, Uptime b₁ b →
        b.ram.update.journalValid = true ∧
        (b.ram.update.storageFault = false → Current b.mem b.ram.update.current) ∧
        (b.ram.update.storageFault = true → ∀ b', Uptime b b' → SameJournal b b') ∧
        ∀ e : Turn, (∀ q, Conforms (BootUds.processRequest q) (e.on b)) ∧
          Conforms BootUds.mainFunction (e.on b) := by
  have hrun := BootManager.wp_run hj
  refine ⟨fun b h => wp_of_eq_cut hrun h, fun exit b₁ hdone => ?_⟩
  have hacts : Acts (BootManager.opened b₀ j) b₁ := (wp_of_eq_done hrun hdone).1
  have hfailed : b₁.ram.update.storageFault = true → b₀.dev.FailedTo b₁.dev :=
    Acts.failedTo (b := BootManager.opened b₀ j) hacts rfl
  refine ⟨hacts, hfailed, fun b hup => ?_⟩
  have hb := hup.mirrored (Acts.mirrored hacts (BootManager.mirrored_opened hj))
  refine ⟨hb.valid, hb.current, fun hf b' hup' => hup'.sameJournal hb hf, fun e => ⟨fun q => ?_, ?_⟩⟩
  · exact BootUds.minds_processRequest.conforms (e.mirrored hb)
  · exact BootUds.minds_mainFunction.conforms (e.mirrored hb)

/-- Commissioning on erased records leaves a current record. -/
theorem BootUpdate.exists_commissioned {b : Board} {s : Slot} (hready : b.ram.flash.ready = true)
    (hd : b.dev.Healthy) (herased : RecordsErased b.mem)
    (himage : (BootImage.loadInfo b.mem (some s)).valid = true) :
    ∃ (b' : Board) (j : BootUpdateJournal), Current b'.mem j ∧
      j.state = BootUpdateState.aborted.code := by
  have hallowed : commissionAllowed b.mem (some s) = true := himage
  obtain ⟨ok, b', -, -, -, hstep, -, hboard⟩ :=
    (completes_initializeJournal hready hd herased.journal hallowed).exists_done
  refine ⟨b', b'.ram.update.current, hstep.current, ?_⟩
  rw [hboard]
  rfl

/-- A journal that has just been commissioned is mirrored from the next boot on. -/
theorem BootUpdate.journal_mirrored_commissioned : ∃ b₀ j, Current b₀.mem j ∧
    j.state = BootUpdateState.aborted.code ∧
    ∀ exit b₁, BootManager.run b₀ = .done exit b₁ → Acts (BootManager.opened b₀ j) b₁ := by
  obtain ⟨b₀, j, hj, hstate⟩ := exists_commissioned (b := boardOf packedImage) (s := .a) rfl
    ⟨fun _ h => (by cases h), fun _ h => (by cases h)⟩ recordsErased_packedImage loadInfo_packedImage.1
  exact ⟨b₀, j, hj, hstate, fun exit b₁ h => ((journal_mirrored hj).2 exit b₁ h).1⟩
