import BootloaderV2.Commands
import BootloaderV2.Manager

/-!
# Upkeep

Everything a boot does apart from publishing a recovered image writes records only: commits of a
journal that has a current record, and metadata.  It leaves the variables of the server alone.
-/

open BootConfig NorFlash CrashM TwoCopy

/-- A command in a metadata sector, or in a journal sector while there is a current record. -/
def Housekeeping : CommandRel := fun c m m' => c.InMetadata ∨ BootJournal.Keeping c m m'

theorem Housekeeping.not_touches {c : Command} {m m' : Nat → Byte} (h : Housekeeping c m m')
    (s : Slot) : ¬ c.Touches s := by
  rcases h with h | h
  · exact h.not_touches s
  · exact h.1.not_touches s

/-- The variables of the server are the same. -/
structure SameServer (b b' : Board) : Prop where
  programming : b'.ram.programming = b.ram.programming
  security : b'.ram.security = b.ram.security
  uds : b'.ram.uds = b.ram.uds

namespace SameServer

theorem refl (b : Board) : SameServer b b := ⟨rfl, rfl, rfl⟩

theorem trans {b b' b'' : Board} (h : SameServer b b') (h' : SameServer b' b'') : SameServer b b'' :=
  ⟨h'.programming.trans h.programming, h'.security.trans h.security, h'.uds.trans h.uds⟩

theorem of_outside {b b' : Board} (h : BootMetadata.Outside b b') : SameServer b b' := by
  obtain ⟨d, rfl, -⟩ := h
  exact ⟨rfl, rfl, rfl⟩

end SameServer

/-- `m` writes records only and leaves the server alone, from every state. -/
def Upkeep {α : Type} (m : BootM α) : Prop := ∀ b, Issues Housekeeping m (fun _ => SameServer b) b

/-- A property of programs that sequencing preserves. -/
structure Sequenced (P : {α : Type} → BootM α → Prop) : Prop where
  pure : ∀ {α : Type} (a : α), P (Pure.pure a : BootM α)
  bind : ∀ {α β : Type} {m : BootM α} {f : α → BootM β}, P m → (∀ a, P (f a)) → P (m >>= f)
  get : P (CrashM.get : BootM Board)

namespace Sequenced

variable {P : {α : Type} → BootM α → Prop} {α β : Type} {m n : BootM α}

theorem ite (_ : Sequenced P) {c : Prop} [Decidable c] (hm : P m) (hn : P n) :
    P (if c then m else n) := by
  split
  · exact hm
  · exact hn

/-- A program may read the board first. -/
theorem read (h : Sequenced P) {g : Board → BootM β} (hg : ∀ b, P (g b)) :
    P (CrashM.get >>= g) :=
  h.bind h.get hg

theorem getRam (h : Sequenced P) {g : Ram → BootM β} (hg : ∀ r, P (g r)) :
    P (BootM.getRam >>= g) :=
  h.read fun b => hg b.ram

theorem flash (h : Sequenced P) {g : (Nat → Byte) → BootM β} (hg : ∀ mem, P (g mem)) :
    P (BootM.flash >>= g) :=
  h.read fun b => hg b.mem

end Sequenced

/-- A property that the steps of the lifecycle have. -/
structure Closed (P : {α : Type} → BootM α → Prop) : Prop extends Sequenced P where
  setLifecycle : ∀ g, P (BootM.setLifecycle g)
  setManager : ∀ g, P (BootM.setManager g)
  setRetained : ∀ r, P (BootM.setRetained r)
  metadata : ∀ {α : Type} {m : BootM α},
    (∀ b, Issues (fun c _ _ => c.InMetadata) m (fun _ => BootMetadata.Outside b) b) → P m
  handoff : P BootUpdate.completeActivationHandoff

/-- A property that the accesses of the lifecycle to its variables and records have. -/
structure Stored (P : {α : Type} → BootM α → Prop) : Prop extends Sequenced P where
  setLifecycle : ∀ g, P (BootM.setLifecycle g)
  setManager : ∀ g, P (BootM.setManager g)
  initializeStore : ∀ slot record, P (BootMetadata.initializeStore slot record)
  installVerified : ∀ slot version counter reason,
    P (BootMetadata.installVerified slot version counter reason)
  setState : ∀ slot state reason result, P (BootMetadata.setState slot state reason result)
  incrementAttempt : ∀ slot reason, P (BootMetadata.incrementAttempt slot reason)
  writeRecord : ∀ slot record expected programming,
    P (BootMetadata.writeRecord slot record expected programming)
  handoff : P BootUpdate.completeActivationHandoff

theorem Closed.stored {P : {α : Type} → BootM α → Prop} (h : Closed P) : Stored P where
  toSequenced := h.toSequenced
  setLifecycle := h.setLifecycle
  setManager := h.setManager
  initializeStore _ _ := h.metadata fun _ => BootMetadata.issues_initializeStore
  installVerified _ _ _ _ := h.metadata fun _ => BootMetadata.issues_installVerified
  setState _ _ _ _ := h.metadata fun _ => BootMetadata.issues_setState
  incrementAttempt _ _ := h.metadata fun _ => BootMetadata.issues_incrementAttempt
  writeRecord _ _ _ _ := h.metadata fun _ => BootMetadata.issues_writeRecord
  handoff := h.handoff

/-- A property that the writes of records have, and the changes to what is known of them. -/
structure Recorded (P : {α : Type} → BootM α → Prop) : Prop extends Sequenced P where
  setUpdate : ∀ g, P (BootM.setUpdate g)
  setLifecycle : ∀ g, P (BootM.setLifecycle g)
  setManager : ∀ g, P (BootM.setManager g)
  commitRecord : ∀ record first, P (BootJournal.commitRecord record first)
  writeRecord : ∀ slot record expected programming,
    P (BootMetadata.writeRecord slot record expected programming)

/-- A property that the functions of the lifecycle have. -/
structure Managed (P : {α : Type} → BootM α → Prop) : Prop extends Sequenced P where
  setManager : ∀ g, P (BootM.setManager g)
  reload : P BootLifecycle.reload
  init : ∀ reason, P (BootLifecycle.init reason)
  select : ∀ a b, P (BootLifecycle.select a b)
  confirm : ∀ slot, P (BootLifecycle.confirm slot)
  prepareBoot : ∀ slot, P (BootLifecycle.prepareBoot slot)

/-- A property that the stores to the retained block have as well. -/
structure Booting (P : {α : Type} → BootM α → Prop) : Prop extends Managed P where
  setRetained : ∀ r, P (BootM.setRetained r)

namespace BootMetadata

variable {P : {α : Type} → BootM α → Prop} {slot : Slot}

/-- The functions that write one record after they have looked at the store. -/
theorem recorded_written (h : Recorded P) {record : BootSlotMetadata} {expected : BootMetadataStatus}
    {programming : Bool} :
    P (do return (← writeRecord slot record expected programming).isSome) :=
  h.bind (h.writeRecord _ _ _ _) fun _ => h.pure _

theorem recorded_initializeStore (h : Recorded P) {record : BootSlotMetadata} :
    P (initializeStore slot record) :=
  h.flash fun _ => h.ite (h.pure _) (h.writeRecord _ _ _ _)

theorem recorded_installVerified (h : Recorded P) {version counter reason : Word} :
    P (installVerified slot version counter reason) := by
  apply h.flash
  intro mem
  dsimp only
  split
  · exact h.ite (h.pure _) (recorded_written h)
  · exact recorded_written h

theorem recorded_setState (h : Recorded P) {state : BootImageState} {reason result : Word} :
    P (setState slot state reason result) := by
  apply h.flash
  intro mem
  split
  · exact h.ite (h.pure _) (recorded_written h)
  · exact h.pure _

theorem recorded_incrementAttempt (h : Recorded P) {reason : Word} :
    P (incrementAttempt slot reason) := by
  apply h.flash
  intro mem
  split
  · exact h.ite (h.pure _) (recorded_written h)
  · exact h.pure _

end BootMetadata

namespace BootUpdate

variable {P : {α : Type} → BootM α → Prop}

theorem recorded_save (h : Recorded P) {next : BootUpdateJournal} : P (save next) := by
  apply h.getRam
  intro ram
  apply h.ite (h.pure _)
  apply h.bind (h.commitRecord _ _)
  intro res
  cases res with
  | none => exact h.bind (h.setUpdate _) fun _ => h.pure _
  | some n => exact h.bind (h.setUpdate _) fun _ => h.pure _

theorem recorded_completeActivationHandoff (h : Recorded P) : P completeActivationHandoff :=
  h.getRam fun _ => h.ite (h.pure _) (recorded_save h)

theorem recorded_setState (h : Recorded P) {state : BootUpdateState} : P (setState state) :=
  h.getRam fun _ => h.ite (h.pure _) (recorded_save h)

theorem recorded_beginUpdate (h : Recorded P) {active target : SlotId} {size : Nat} :
    P (beginUpdate active target size) :=
  h.getRam fun _ => h.ite (h.pure _) <| h.bind (recorded_save h) fun _ =>
    h.ite (h.pure _) <| h.bind (h.setUpdate _) fun _ => h.pure _

theorem recorded_setProgress (h : Recorded P) {programmed : Nat} {sequence : Byte} :
    P (setProgress programmed sequence) :=
  h.getRam fun _ => h.ite (h.pure _) <| h.ite (h.pure _) (recorded_save h)

theorem recorded_markTransferComplete (h : Recorded P) {header : BootImageHeader} {sequence : Byte} :
    P (markTransferComplete header sequence) :=
  h.getRam fun _ => h.ite (h.pure _) (recorded_save h)

theorem recorded_markVerified (h : Recorded P) {recovered : Bool} : P (markVerified recovered) := by
  have hpending : P (markPending recovered) :=
    h.getRam fun _ => h.ite (h.pure _) <| h.bind (recorded_save h) fun _ =>
      h.ite (h.pure _) <| h.bind (h.setUpdate _) fun _ => h.pure _
  exact h.getRam fun _ => h.ite
    (h.bind (recorded_setState h) fun _ => h.ite (h.pure _) hpending) hpending

theorem recorded_abort (h : Recorded P) {reason : BootUpdateResult} : P (abort reason) :=
  h.bind (h.setUpdate _) fun _ => h.getRam fun _ => h.ite (h.pure _) (recorded_save h)

theorem recorded_initializeJournal (h : Recorded P) {active : SlotId} :
    P (initializeJournal active) := by
  have hinit : ∀ mem, P (initializeUnset mem active) := by
    intro mem
    unfold initializeUnset
    apply h.ite (h.pure _)
    apply h.bind (h.commitRecord _ _)
    intro res
    cases res with
    | none => exact h.bind (h.setUpdate _) fun _ => h.pure _
    | some n => exact h.bind (h.setUpdate _) fun _ => h.pure _
  apply h.flash
  intro mem
  split
  · exact h.pure _
  · exact hinit mem

/-- Recovery publishes a header as well. -/
theorem recorded_loadRecoveryState (h : Recorded P)
    (hpublish : ∀ {active target : SlotId} {header : BootImageHeader},
      P (BootImageInstall.validateAndPublish active target header)) : P loadRecoveryState := by
  have hrevalidate : ∀ action, P (revalidate action) := by
    intro action
    apply h.getRam
    intro ram
    apply h.bind hpublish
    intro ok
    apply h.ite (h.bind (recorded_abort h) fun _ => h.pure _)
    exact h.ite (h.bind (h.setUpdate _) fun _ => h.pure _) (recorded_markVerified h)
  have hrest : P recoverLoaded := by
    unfold recoverLoaded
    apply h.getRam
    intro ram
    dsimp only
    have hverify : ∀ action, P (do
        if ram.update.current.state = BootUpdateState.transferComplete.code then
          if !(← setState .verifying) then return false
          revalidate action
        else revalidate action : BootM Bool) := fun action => h.ite
      (h.bind (recorded_setState h) fun _ => h.ite (h.pure _) (hrevalidate _)) (hrevalidate _)
    cases BootRecoveryPolicy.action ram.update.journalValid ram.update.current.state with
    | failSafe => exact h.pure _
    | normal => exact h.pure _
    | abort => exact recorded_abort h
    | revalidate => exact hverify _
    | pending => exact hverify _
  apply h.flash
  intro mem
  split
  · exact h.bind (h.setUpdate _) fun _ => hrest
  · exact h.bind (h.setUpdate _) fun _ => hrest

end BootUpdate

theorem Recorded.stored {P : {α : Type} → BootM α → Prop} (h : Recorded P) : Stored P where
  toSequenced := h.toSequenced
  setLifecycle := h.setLifecycle
  setManager := h.setManager
  initializeStore _ _ := BootMetadata.recorded_initializeStore h
  installVerified _ _ _ _ := BootMetadata.recorded_installVerified h
  setState _ _ _ _ := BootMetadata.recorded_setState h
  incrementAttempt _ _ := BootMetadata.recorded_incrementAttempt h
  writeRecord := h.writeRecord
  handoff := BootUpdate.recorded_completeActivationHandoff h

theorem upkeep_closed : Closed @Upkeep where
  pure _ b := .pure (.refl b)
  bind hm hf b := (hm b).bind fun a b' h => (hf a b').mono fun _ _ h' => h.trans h'
  get b := .pure (.refl b)
  setLifecycle _ _ := ⟨.refl _, rfl, rfl, rfl⟩
  setManager _ _ := ⟨.refl _, rfl, rfl, rfl⟩
  setRetained _ _ := ⟨.refl _, rfl, rfl, rfl⟩
  metadata h b := ((h b).weaken fun _ _ _ hc => .inl hc).mono fun _ _ hb => .of_outside hb
  handoff b := by
    refine (BootUpdate.issues_completeActivationHandoff.weaken fun _ _ _ hc => .inr hc).mono ?_
    rintro a b' ⟨d, u, rfl, -⟩
    exact ⟨rfl, rfl, rfl⟩

namespace BootLifecycle

variable {P : {α : Type} → BootM α → Prop}

theorem stored_reload (h : Stored P) : P reload := h.flash fun _ => h.setLifecycle _

theorem stored_failed (h : Stored P) : P (do setStorageFault; return false : BootM Bool) :=
  h.bind (h.setLifecycle _) fun _ => h.pure _

theorem stored_initializeConfirmed (h : Stored P) {slot : Slot} {image : BootImageInfo}
    {counter : Word} : P (initializeConfirmed slot image counter) :=
  h.getRam fun _ => h.bind (h.initializeStore _ _) fun _ =>
    h.ite (h.pure _) (stored_failed h)

theorem stored_handOver (h : Stored P) {target : Slot} {image : BootImageInfo} :
    P (handOver target image) := by
  have hdone : P (do
      if ← BootUpdate.completeActivationHandoff then return true
      setStorageFault
      return false : BootM Bool) :=
    h.bind h.handoff fun _ => h.ite (h.pure _) (stored_failed h)
  refine h.getRam fun r => h.ite ?_ hdone
  refine h.bind (h.installVerified _ _ _ _) fun _ =>
    h.ite (stored_failed h) ?_
  exact h.bind (h.setState _ _ _ _) fun _ =>
    h.ite (stored_failed h) hdone

theorem stored_confirmActive (h : Stored P) {active : Slot} : P (confirmActive active) :=
  h.flash fun _ => h.ite (h.pure _) <| h.getRam fun _ => h.ite (stored_initializeConfirmed h) <|
    h.ite (stored_failed h) (h.pure _)

theorem stored_reconcilePending (h : Stored P) {active target : SlotId} :
    P (reconcilePending active target) := by
  refine h.flash fun mem => ?_
  cases target with
  | none => exact h.pure _
  | some target =>
    refine h.ite (h.pure _) (h.bind (stored_reload h) fun _ => ?_)
    cases active with
    | none => exact stored_handOver h
    | some active =>
      exact h.bind (stored_confirmActive h) fun _ => h.ite (h.pure _) (stored_handOver h)

theorem stored_reconcileCommissioned (h : Stored P) {active : SlotId} :
    P (reconcileCommissioned active) := by
  cases active with
  | none => exact h.pure _
  | some active =>
    exact h.bind (stored_reload h) fun _ => h.flash fun _ => h.getRam fun _ =>
      h.ite (stored_initializeConfirmed h) (h.pure _)

theorem stored_reconcileJournal (h : Stored P) : P reconcileJournal :=
  h.getRam fun _ => h.ite (stored_failed h) <| h.ite (stored_reconcilePending h) <|
    h.ite (stored_reconcileCommissioned h) (h.pure _)

theorem stored_resolveExhaustedTrial (h : Stored P) {slot : Slot} :
    P (resolveExhaustedTrial slot) := by
  refine h.flash fun mem => h.getRam fun r => h.ite ?_ (h.pure _)
  refine h.bind (h.setLifecycle _) fun _ => ?_
  refine h.bind (h.writeRecord _ _ _ _) fun res => ?_
  cases res with
  | none => exact stored_failed h
  | some r => exact h.bind (h.setLifecycle _) fun _ => h.pure _

theorem stored_report (h : Stored P) {result : Bool} :
    P (do reload; captureDiagnostics; return result : BootM Bool) :=
  h.bind (stored_reload h) fun _ => h.bind (h.setLifecycle _) fun _ => h.pure _

/-- `BootLifecycle_Init`. -/
theorem stored_init (h : Stored P) {reason : BootResetReason} : P (init reason) := by
  refine h.bind (h.setLifecycle _) fun _ => h.bind (stored_reconcileJournal h) fun _ =>
    h.ite (stored_report h) (h.bind (stored_reload h) fun _ => h.getRam fun r => h.ite ?_ ?_)
  · exact h.bind (h.setLifecycle _) fun _ => h.bind (h.setLifecycle _) fun _ => h.pure _
  · have hresolve : P resolveExhaustedTrials :=
      h.bind (stored_resolveExhaustedTrial h) fun _ => h.ite (h.pure _)
        (stored_resolveExhaustedTrial h)
    exact h.bind hresolve fun _ => h.ite (stored_report h) (stored_report h)

theorem stored_select (h : Stored P) {a b : BootImageInfo} : P (select a b) :=
  h.getRam fun _ => h.ite (h.bind (h.setLifecycle _) fun _ => h.pure _) (h.pure _)

theorem stored_prepareBoot (h : Stored P) {slot : Slot} : P (prepareBoot slot) := by
  refine h.bind (stored_reload h) fun _ => h.getRam fun r => h.ite (h.pure _) <| h.ite ?_ <|
    h.ite ?_ <| h.ite (h.pure _) (stored_report h)
  · exact h.bind (h.setState _ _ _ _) fun _ =>
      h.ite (stored_failed h) (stored_report h)
  · exact h.bind (h.incrementAttempt _ _) fun _ =>
      h.ite (stored_failed h) (stored_report h)

theorem stored_confirm (h : Stored P) {slot : Slot} : P (confirm slot) := by
  refine h.bind (stored_reload h) fun _ => h.getRam fun r => h.ite (h.pure _) <| h.ite (h.pure _) <|
    h.ite (h.pure _) <| h.flash fun mem => h.bind (stored_select h) fun t => h.ite (h.pure _) ?_
  exact h.bind (h.setState _ _ _ _) fun _ =>
    h.ite (stored_failed h) (stored_report h)

theorem stored_managed (h : Stored P) : Managed P where
  toSequenced := h.toSequenced
  setManager := h.setManager
  reload := stored_reload h
  init _ := stored_init h
  select _ _ := stored_select h
  confirm _ := stored_confirm h
  prepareBoot _ := stored_prepareBoot h

end BootLifecycle

theorem Closed.booting {P : {α : Type} → BootM α → Prop} (h : Closed P) : Booting P where
  toManaged := BootLifecycle.stored_managed h.stored
  setRetained := h.setRetained

namespace BootLifecycle

variable {P : {α : Type} → BootM α → Prop}

theorem booting_writeAppHandover (h : Booting P) {slot : Slot} : P (writeAppHandover slot) :=
  h.bind h.reload fun _ => h.getRam fun _ => h.setRetained _

end BootLifecycle

namespace BootManager

variable {P : {α : Type} → BootM α → Prop}

theorem managed_selectBootTarget (h : Managed P) : P selectBootTarget :=
  h.getRam fun _ => h.flash fun _ => h.bind (h.setManager _) fun _ => h.select _ _

theorem managed_captureActiveSlot (h : Managed P) {softwareRequest : Bool} :
    P (captureActiveSlot softwareRequest) :=
  h.bind (managed_selectBootTarget h) fun _ => h.read fun _ => h.setManager _

theorem booting_checkRequest (h : Booting P) : P checkRequest := by
  refine h.read fun b => ?_
  dsimp only
  have hrest : P (do
      captureActiveSlot (BootRequest.retainedRequest b requestMagic)
      if BootRequest.retainedRequest b requestMagic = true then BootRequest.clearSoftwareBootRequest
      return BootRequest.retainedRequest b requestMagic || b.hw.requestPin : BootM Bool) :=
    h.bind (managed_captureActiveSlot h.toManaged) fun _ =>
      h.ite (h.bind (h.setRetained _) fun _ => h.pure _) (h.pure _)
  split
  · exact h.bind (h.confirm _) fun _ => h.bind (h.setRetained _) fun _ => hrest
  · exact hrest

theorem managed_checkApp (h : Managed P) : P checkApp :=
  h.bind (managed_selectBootTarget h) fun _ => h.bind (h.setManager _) fun _ => h.pure _

theorem booting_jumpApp (h : Booting P) {slot : Slot} : P (jumpApp slot) := by
  refine h.read fun b => h.ite (h.bind (h.setRetained _) fun _ => h.pure _) ?_
  refine h.bind (h.prepareBoot slot) fun _ => h.ite (h.pure _) ?_
  refine h.bind (BootLifecycle.booting_writeAppHandover h) fun _ => ?_
  have hjump : P (BootJump.toSlot slot) := h.getRam fun _ => h.flash fun _ => h.pure _
  exact h.bind hjump fun _ => h.ite (h.pure _) (h.pure _)

/-- What a boot does once the journal has been recovered. -/
theorem booting_afterInit (h : Booting P) : P afterInit := by
  refine h.bind (booting_checkRequest h) fun _ => h.ite ?_ <|
    h.bind (managed_checkApp h.toManaged) fun found => ?_
  · exact h.bind (h.setManager _) fun _ => h.pure _
  cases found with
  | some slot => exact booting_jumpApp h
  | none => exact h.bind (h.setManager _) fun _ => h.pure _

end BootManager
