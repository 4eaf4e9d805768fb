import BootloaderV2.Uds
import BootloaderV2.Upkeep

/-!
# What every service does

A property of programs that the flash, the journal and the lifecycle have each by itself, and that
sequencing preserves, is a property of every request.
-/

open BootConfig CrashM

/-- A property that the functions have which the services are made of. -/
structure Served (P : {α : Type} → BootM α → Prop) : Prop extends Managed P where
  setProgramming : ∀ g, P (BootM.setProgramming g)
  setSecurity : ∀ g, P (BootM.setSecurity g)
  setUds : ∀ g, P (BootM.setUds g)
  transmit : P BootIsoTp.transmit
  configureSlots : ∀ active target, P (BootFlash.configureSlots active target)
  erase : ∀ address size, P (BootFlash.erase address size)
  program : ∀ address data size, P (BootFlash.program address data size)
  beginUpdate : ∀ active target size, P (BootUpdate.beginUpdate active target size)
  setState : ∀ state, P (BootUpdate.setState state)
  setProgress : ∀ programmed sequence, P (BootUpdate.setProgress programmed sequence)
  markTransferComplete : ∀ header sequence, P (BootUpdate.markTransferComplete header sequence)
  markVerified : ∀ recovered, P (BootUpdate.markVerified recovered)
  abort : ∀ reason, P (BootUpdate.abort reason)
  initializeJournal : ∀ active, P (BootUpdate.initializeJournal active)

/-- A property that the operations have which the services call. -/
structure Answered (P : {α : Type} → BootM α → Prop) : Prop extends Managed P where
  setSecurity : ∀ g, P (BootM.setSecurity g)
  setUds : ∀ g, P (BootM.setUds g)
  transmit : P BootIsoTp.transmit
  setAccess : ∀ session unlocked, P (BootProgramming.setAccess session unlocked)
  clear : P BootProgramming.abort
  restart : ∀ active version, P (BootProgramming.init active version)
  erase : ∀ address size, P (BootProgramming.erase address size)
  download : ∀ address size, P (BootProgramming.download address size)
  transfer : ∀ sequence data, P (BootProgramming.transfer sequence data)
  exit : P BootProgramming.exit
  verify : P BootProgramming.verify
  abort : ∀ reason, P (BootUpdate.abort reason)
  initializeJournal : ∀ active, P (BootUpdate.initializeJournal active)

variable {P : {α : Type} → BootM α → Prop}

namespace BootProgramming

theorem served_refuse (h : Served P) {reason : BootUpdateResult} {r : Byte} :
    P (do let _ ← BootUpdate.abort reason; return r) :=
  h.bind (h.abort reason) fun _ => h.pure r

theorem served_giveUp (h : Served P) {reason : BootUpdateResult} {r : Byte} :
    P (do let _ ← BootUpdate.abort reason; abort; return r) :=
  h.bind (h.abort reason) fun _ => h.bind (h.setProgramming aborted) fun _ => h.pure r

theorem served_eraseLoop (h : Served P) {header current n : Nat} :
    P (eraseLoop header current n) := by
  induction n generalizing current with
  | zero => exact h.pure 0
  | succ n ih =>
    unfold eraseLoop
    exact h.ite ih <| h.bind h.transmit fun _ => h.ite (h.pure _) <|
      h.bind (h.erase _ _) fun _ => h.ite (served_refuse h) ih

theorem served_eraseTarget (h : Served P) {active target : SlotId} {address size : Nat} :
    P (eraseTarget active target address size) := by
  have hlast : P (do
      if !(← BootUpdate.setState .downloadReady) then return 0x72
      BootM.setProgramming fun c =>
        { c with targetAddress := address, targetSize := size, eraseComplete := true }
      return (0 : Byte)) :=
    h.bind (h.setState _) fun _ => h.ite (h.pure _) <|
      h.bind (h.setProgramming _) fun _ => h.pure _
  unfold eraseTarget
  refine h.bind (h.beginUpdate _ _ _) fun _ => h.ite (h.pure _) ?_
  refine h.bind (h.setState _) fun _ => h.ite (h.pure _) ?_
  refine h.bind (h.erase _ _) fun _ => h.ite (served_refuse h) ?_
  refine h.bind (h.program _ _ _) fun _ => h.ite (served_refuse h) ?_
  exact h.bind (served_eraseLoop h) fun _ => h.ite (h.pure _) hlast

theorem served_erase (h : Served P) {address size : Nat} : P (erase address size) := by
  refine h.getRam fun _ => h.ite (h.pure _) <| h.ite (h.pure _) <| h.ite (h.pure _) <|
    h.ite (h.pure _) <| h.bind (h.setProgramming _) fun _ => ?_
  refine h.bind (h.configureSlots _ _) fun _ => h.ite (h.pure _) ?_
  exact h.bind h.transmit fun _ => h.ite (h.pure _) (served_eraseTarget h)

theorem served_download (h : Served P) {address size : Nat} : P (download address size) :=
  h.getRam fun _ => h.ite (h.pure _) <| h.ite (h.pure _) <| h.ite (h.pure _) <|
    h.bind (h.setState _) fun _ => h.ite (h.pure _) <|
    h.bind (h.setProgramming _) fun _ => h.pure _

theorem served_flushPhrase (h : Served P) : P flushPhrase := by
  have hset : ∀ f, P (do BootM.setProgramming f; return true) := fun f =>
    h.bind (h.setProgramming f) fun _ => h.pure true
  refine h.getRam fun _ => ?_
  dsimp only
  refine h.ite (h.pure _) <| h.ite (hset _) <| h.ite (h.pure _) ?_
  exact h.bind (h.program _ _ _) fun _ => h.ite (h.pure _) (hset _)

theorem served_transferLoop (h : Served P) {data : List Byte} : P (transferLoop data) := by
  induction data with
  | nil => exact h.pure true
  | cons byte bytes ih =>
    refine h.bind (h.setProgramming _) fun _ => h.getRam fun _ => h.ite ?_ ih
    exact h.bind (served_flushPhrase h) fun _ => h.ite (h.pure _) ih

theorem served_transfer (h : Served P) {sequence : Byte} {data : List Byte} :
    P (transfer sequence data) := by
  refine h.getRam fun _ => h.ite (h.pure _) <| h.ite (h.pure _) <| h.ite (h.pure _) <|
    h.ite (h.pure _) <| h.ite (h.pure _) ?_
  refine h.bind (served_transferLoop h) fun _ => h.ite (served_giveUp h) ?_
  refine h.bind (h.setProgramming _) fun _ => h.getRam fun _ => ?_
  refine h.bind (h.setProgress _ _) fun _ => h.ite ?_ ?_
  · exact h.bind (h.setProgramming _) fun _ => h.pure _
  · exact h.bind (h.setProgramming _) fun _ => h.pure _

theorem served_exit (h : Served P) : P exit :=
  h.getRam fun _ => h.ite (h.pure _) <| h.ite (h.pure _) <|
    h.bind (h.markTransferComplete _ _) fun _ => h.ite (h.pure _) <|
    h.bind (h.setProgramming _) fun _ => h.pure _

theorem served_verifyPublished (h : Served P) {c : Context} : P (verifyPublished c) :=
  h.flash fun _ => h.bind (h.setProgramming _) fun _ => h.ite (served_refuse h) <|
    h.bind (h.markVerified _) fun _ => h.ite (h.pure _) <|
    h.bind (h.setProgramming _) fun _ => h.pure _

theorem served_verify (h : Served P) : P verify := by
  have hpublish : ∀ c, P (verifyPublish c) := by
    intro c
    refine h.bind (h.erase _ _) fun _ => h.ite (served_giveUp h) ?_
    refine h.bind (h.program _ _ _) fun _ => h.ite (served_giveUp h) ?_
    exact h.bind h.transmit fun _ => h.ite (h.pure _) (served_verifyPublished h)
  refine h.getRam fun _ => h.ite (h.pure _) <| h.ite (h.pure _) ?_
  refine h.bind h.transmit fun _ => h.ite (h.pure _) ?_
  refine h.bind (h.setState _) fun _ => h.ite (h.pure _) <| h.flash fun _ => ?_
  refine h.bind (h.setProgramming _) fun _ => h.ite (served_refuse h) <| h.ite (served_refuse h) ?_
  exact h.bind h.transmit fun _ => h.ite (h.pure _) (hpublish _)

end BootProgramming

theorem Served.answered (h : Served P) : Answered P where
  toManaged := h.toManaged
  setSecurity := h.setSecurity
  setUds := h.setUds
  transmit := h.transmit
  setAccess _ _ := h.setProgramming _
  clear := h.setProgramming _
  restart _ _ := h.setProgramming _
  erase _ _ := BootProgramming.served_erase h
  download _ _ := BootProgramming.served_download h
  transfer _ _ := BootProgramming.served_transfer h
  exit := BootProgramming.served_exit h
  verify := BootProgramming.served_verify h
  abort := h.abort
  initializeJournal := h.initializeJournal

namespace BootUds

variable {q : List Byte}

theorem answered_init (h : Answered P) : P init :=
  h.bind (h.setUds _) fun _ => h.bind (h.setSecurity _) fun _ => h.getRam fun _ => h.restart _ _

theorem answered_abortDownload (h : Answered P) : P abortDownload := by
  have hrest : P (do
      BootProgramming.abort
      BootM.setUds fun u => { u with transferTimeout := 0 }) :=
    h.bind h.clear fun _ => h.setUds _
  exact h.getRam fun _ => h.ite (h.bind (h.abort _) fun _ => hrest) hrest

theorem answered_mainFunction (h : Answered P) : P mainFunction :=
  h.getRam fun _ => h.ite (h.bind (h.setUds _) fun _ =>
    h.ite (answered_abortDownload h) (h.pure _)) (h.pure _)

theorem answered_sessionControl (h : Answered P) : P (sessionControl q) :=
  h.ite (h.pure _) <| h.ite (h.pure _) <| h.bind (h.setUds _) fun _ =>
    h.bind (h.setSecurity _) fun _ => h.bind (answered_abortDownload h) fun _ =>
    h.bind (h.setAccess _ _) fun _ => h.pure _

theorem answered_securityAccess (h : Answered P) : P (securityAccess q) := by
  have hseed : P BootSecurity.generateSeed :=
    h.read fun _ => h.bind (h.setSecurity _) fun _ => h.pure _
  have hkey : ∀ key, P (BootSecurity.validateKey key) := fun key =>
    h.getRam fun _ => h.ite (h.bind (h.setSecurity _) fun _ => h.pure _)
      (h.bind (h.setSecurity _) fun _ => h.pure _)
  have haccess : ∀ ans : Answer, P (do
      let ram ← BootM.getRam
      BootProgramming.setAccess (ram.uds.session == 2) ram.security.unlocked
      return ans) := fun ans =>
    h.getRam fun _ => h.bind (h.setAccess _ _) fun _ => h.pure ans
  refine h.getRam fun _ => h.ite (h.pure _) <| h.ite (h.bind hseed fun _ => haccess _) <| h.ite ?_ ?_
  · exact h.bind (hkey _) fun _ => h.ite (h.pure _) (haccess _)
  · exact h.bind (h.setAccess _ _) fun _ => h.pure _

theorem answered_readData (h : Answered P) : P (readData q) :=
  h.ite (h.pure _) <| h.getRam fun _ => h.ite (h.pure _) <| h.ite (h.pure _) <|
    h.ite (h.pure _) <| h.ite (h.pure _) <|
    h.ite (h.bind h.reload fun _ => h.getRam fun _ => h.pure _) (h.pure _)

theorem answered_commission (h : Answered P) : P (commission q) := by
  refine h.getRam fun _ => h.ite (h.pure _) <| h.ite (h.pure _) <| h.ite (h.pure _) <|
    h.ite (h.pure _) <| h.bind h.transmit fun _ => h.ite (h.pure _) ?_
  refine h.bind (h.initializeJournal _) fun _ => h.ite (h.pure _) ?_
  refine h.bind (h.init _) fun _ => h.ite (h.pure _) ?_
  refine h.bind (BootManager.managed_captureActiveSlot h.toManaged) fun _ => h.getRam fun _ => ?_
  exact h.bind (h.restart _ _) fun _ => h.bind (h.setAccess _ _) fun _ => h.pure _

theorem answered_service (h : Answered P) {sid : Byte} : P (service sid q) := by
  have hanswer : ∀ {m : BootM Byte} {response : List Byte}, P m →
      P (do return answer (← m) response) := fun hm => h.bind hm fun _ => h.pure _
  have hroutine : P (routineControl q) :=
    h.ite (h.pure _) <| h.ite (h.pure _) <|
      h.ite (h.ite (h.pure _) (hanswer (h.erase _ _))) <|
      h.ite (h.ite (h.pure _) (hanswer (h.verify))) <|
      h.ite (hanswer (answered_commission h)) (h.pure _)
  have hdownload : P (requestDownload q) :=
    h.ite (h.pure _) <| h.ite (h.pure _) <|
      h.bind (h.download _ _) fun _ => h.bind (h.setUds _) fun _ =>
      h.getRam fun _ => h.pure _
  have htransfer : P (transferData q) :=
    h.ite (h.pure _) <| h.bind (h.transfer _ _) fun _ =>
      h.ite (h.bind (h.setUds _) fun _ => h.pure _) (h.pure _)
  have hexit : P (transferExit q) :=
    h.ite (h.pure _) (hanswer (h.exit))
  have hreset : P (ecuReset q) :=
    h.getRam fun _ => h.ite (h.pure _) <| h.ite (h.pure _) <| h.ite (h.pure _) <|
      h.ite (h.pure _) <| h.ite (h.pure _) <| h.bind (h.setUds _) fun _ => h.pure _
  have htester : P (testerPresent q) := h.ite (h.pure _) (h.pure _)
  exact h.ite (answered_sessionControl h) <| h.ite (answered_securityAccess h) <|
    h.ite (answered_readData h) <| h.ite hroutine <| h.ite hdownload <| h.ite htransfer <|
    h.ite hexit <| h.ite hreset <| h.ite htester (h.pure _)

/-- A request has what its functions have. -/
theorem answered_processRequest (h : Answered P) : P (processRequest q) := by
  refine h.ite (h.pure _) <| h.getRam fun _ => h.bind (h.setAccess _ _) fun _ =>
    h.bind (answered_service h) fun result => ?_
  cases result with
  | ok response => exact h.pure _
  | error nrc => exact h.pure _

end BootUds
