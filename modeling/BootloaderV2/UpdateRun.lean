import BootloaderV2.Quiescence
import BootloaderV2.Rejection
import BootloaderV2.UpdateSession

/-!
# An update under way

The requests of an update reach the server one after the other, with any turns of the main loop in
between, as long as the timer of the transfer does not run out.
-/

open BootConfig NorFlash CrashM TwoCopy

/-! ## What a waiting server knows of its context -/

/-- The context has the block length that the server tells the tester. -/
def BootProgramming.Full (b : Board) : Prop :=
  b.ram.programming.maxBlockLength = downloadMaxBlockLength

/-- `m` keeps the block length. -/
def Sized {α : Type} (m : BootM α) : Prop :=
  ∀ b, BootProgramming.Full b → Ensures m (fun _ => BootProgramming.Full) b

namespace Sized

variable {α β : Type} {m : BootM α} {f : α → BootM β}

theorem pure (a : α) : Sized (Pure.pure a : BootM α) := fun _ hb => .pure hb

theorem bind (hm : Sized m) (hf : ∀ a, Sized (f a)) : Sized (m >>= f) :=
  fun b hb => (hm b hb).bind fun a b₁ h₁ => hf a b₁ h₁

theorem sequenced : Sequenced @Sized where
  pure := pure
  bind := bind
  get _ hb := hb

theorem of_tending (h : Tending m) : Sized m := by
  intro b hb
  refine wp_mono (h b) ?_ fun _ _ => trivial
  intro a b' hspares
  unfold BootProgramming.Full
  rw [hspares.1.programming]
  exact hb

theorem setProgramming {g : BootProgramming.Context → BootProgramming.Context}
    (h : ∀ c, (g c).maxBlockLength = c.maxBlockLength) : Sized (BootM.setProgramming g) :=
  fun b hb => (h b.ram.programming).trans hb

/-- A variable of the context is set last. -/
theorem store {g : BootProgramming.Context → BootProgramming.Context} {a : α}
    (h : ∀ c, (g c).maxBlockLength = c.maxBlockLength) :
    Sized (do BootM.setProgramming g; return a) :=
  (setProgramming h).bind fun _ => pure a

/-- An operation of the flash driver changes no variable. -/
theorem of_flash {m : BootM Bool}
    (h : ∀ b, Issues (fun _ _ _ => True) m (fun _ b' => ∃ d, b' = b.setDev d ∧
      SameOutside address size b.mem d.mem) b) : Sized m := by
  intro b hb
  refine wp_mono (h b) ?_ fun _ _ => trivial
  rintro ok b' ⟨-, d, rfl, -⟩
  exact hb

theorem erase {address size : Nat} : Sized (BootFlash.erase address size) :=
  of_flash fun _ => BootFlash.issues_erase fun _ _ => trivial

theorem program {address size : Nat} {data : Nat → Byte} :
    Sized (BootFlash.program address data size) :=
  of_flash fun _ => BootFlash.issues_program fun _ _ _ _ _ _ _ => trivial

theorem managed : Managed @Sized where
  toSequenced := sequenced
  setManager g := of_tending (Tending.booting.setManager g)
  reload := of_tending Tending.booting.reload
  init reason := of_tending (Tending.booting.init reason)
  select a b := of_tending (Tending.booting.select a b)
  confirm slot := of_tending (Tending.booting.confirm slot)
  prepareBoot slot := of_tending (Tending.booting.prepareBoot slot)

end Sized

namespace BootProgramming

open Sized (sequenced of_tending)

theorem sized_abort : Sized abort := Sized.setProgramming fun _ => rfl

theorem sized_refuse {reason : BootUpdateResult} {r : Byte} :
    Sized (do let _ ← BootUpdate.abort reason; return r) :=
  of_tending tending_refuse

theorem sized_giveUp {reason : BootUpdateResult} {r : Byte} :
    Sized (do let _ ← BootUpdate.abort reason; abort; return r) := by
  apply (of_tending (BootUpdate.recorded_abort Tending.recorded)).bind
  intro _
  exact sized_abort.bind fun _ => .pure r

theorem sized_setState {state : BootUpdateState} : Sized (BootUpdate.setState state) :=
  of_tending (BootUpdate.recorded_setState Tending.recorded)

theorem sized_transmit : Sized BootIsoTp.transmit := of_tending BootIsoTp.tending_transmit

theorem sized_eraseLoop {header current n : Nat} : Sized (eraseLoop header current n) := by
  induction n generalizing current with
  | zero => exact .pure 0
  | succ n ih =>
    unfold eraseLoop
    apply sequenced.ite ih
    apply sized_transmit.bind
    intro ok
    apply sequenced.ite (.pure _)
    apply Sized.erase.bind
    intro ok'
    exact sequenced.ite sized_refuse ih

theorem sized_eraseTarget {active target : SlotId} {address size : Nat} :
    Sized (eraseTarget active target address size) := by
  have hlast : Sized (do
      if !(← BootUpdate.setState .downloadReady) then return 0x72
      BootM.setProgramming fun c =>
        { c with targetAddress := address, targetSize := size, eraseComplete := true }
      return (0 : Byte)) := by
    apply sized_setState.bind
    intro ok
    exact sequenced.ite (.pure _) (.store (by exact fun _ => rfl))
  unfold eraseTarget
  apply (of_tending (BootUpdate.recorded_beginUpdate Tending.recorded)).bind
  intro ok
  apply sequenced.ite (.pure _)
  apply sized_setState.bind
  intro ok
  apply sequenced.ite (.pure _)
  apply Sized.erase.bind
  intro ok
  apply sequenced.ite sized_refuse
  apply Sized.program.bind
  intro ok
  apply sequenced.ite sized_refuse
  exact sized_eraseLoop.bind fun _ => sequenced.ite (.pure _) hlast

theorem sized_erase {address size : Nat} : Sized (erase address size) := by
  apply sequenced.getRam
  intro ram
  apply sequenced.ite (.pure _)
  apply sequenced.ite (.pure _)
  apply sequenced.ite (.pure _)
  apply sequenced.ite (.pure _)
  apply sized_abort.bind
  intro _
  apply (of_tending BootFlash.tending_configureSlots).bind
  intro ok
  apply sequenced.ite (.pure _)
  apply sized_transmit.bind
  intro ok
  exact sequenced.ite (.pure _) sized_eraseTarget

theorem sized_download {address size : Nat} : Sized (download address size) := by
  apply sequenced.getRam
  intro ram
  apply sequenced.ite (.pure _)
  apply sequenced.ite (.pure _)
  apply sequenced.ite (.pure _)
  apply sized_setState.bind
  intro ok
  exact sequenced.ite (.pure _) (.store (by exact fun _ => rfl))

theorem sized_flushPhrase : Sized flushPhrase := by
  apply sequenced.getRam
  intro ram
  dsimp only
  apply sequenced.ite (.pure _)
  apply sequenced.ite (.store (by exact fun _ => rfl))
  apply sequenced.ite (.pure _)
  exact Sized.program.bind fun _ => sequenced.ite (.pure _) (.store (by exact fun _ => rfl))

theorem sized_transferLoop {data : List Byte} : Sized (transferLoop data) := by
  induction data with
  | nil => exact .pure true
  | cons byte bytes ih =>
    apply (Sized.setProgramming (by exact fun _ => rfl)).bind
    intro _
    apply sequenced.getRam
    intro ram
    apply sequenced.ite _ ih
    exact sized_flushPhrase.bind fun _ => sequenced.ite (.pure _) ih

theorem sized_transfer {sequence : Byte} {data : List Byte} : Sized (transfer sequence data) := by
  apply sequenced.getRam
  intro ram
  apply sequenced.ite (.pure _)
  apply sequenced.ite (.pure _)
  apply sequenced.ite (.pure _)
  apply sequenced.ite (.pure _)
  apply sequenced.ite (.pure _)
  apply sized_transferLoop.bind
  intro ok
  apply sequenced.ite sized_giveUp
  apply (Sized.setProgramming (by exact fun _ => rfl)).bind
  intro _
  apply sequenced.getRam
  intro ram
  apply (of_tending (BootUpdate.recorded_setProgress Tending.recorded)).bind
  intro ok
  apply sequenced.ite
  · exact sized_abort.bind fun _ => .pure _
  · exact .store (by exact fun _ => rfl)

theorem sized_exit : Sized exit := by
  apply sequenced.getRam
  intro ram
  apply sequenced.ite (.pure _)
  apply sequenced.ite (.pure _)
  apply (of_tending (BootUpdate.recorded_markTransferComplete Tending.recorded)).bind
  intro ok
  exact sequenced.ite (.pure _) (.store (by exact fun _ => rfl))

theorem sized_verifyPublished {c : Context} : Sized (verifyPublished c) := by
  apply sequenced.flash
  intro mem
  apply (Sized.setProgramming (by exact fun _ => rfl)).bind
  intro _
  apply sequenced.ite sized_refuse
  apply (of_tending (BootUpdate.recorded_markVerified Tending.recorded)).bind
  intro ok
  exact sequenced.ite (.pure _) (.store (by exact fun _ => rfl))

theorem sized_verifyPublish {c : Context} : Sized (verifyPublish c) := by
  apply Sized.erase.bind
  intro ok
  apply sequenced.ite sized_giveUp
  apply Sized.program.bind
  intro ok
  apply sequenced.ite sized_giveUp
  exact sized_transmit.bind fun _ => sequenced.ite (.pure _) sized_verifyPublished

theorem sized_verify : Sized verify := by
  apply sequenced.getRam
  intro ram
  apply sequenced.ite (.pure _)
  apply sequenced.ite (.pure _)
  apply sized_transmit.bind
  intro ok
  apply sequenced.ite (.pure _)
  apply sized_setState.bind
  intro ok
  apply sequenced.ite (.pure _)
  apply sequenced.flash
  intro mem
  apply (Sized.setProgramming (by exact fun _ => rfl)).bind
  intro _
  apply sequenced.ite sized_refuse
  apply sequenced.ite sized_refuse
  exact sized_transmit.bind fun _ => sequenced.ite (.pure _) sized_verifyPublish

end BootProgramming

theorem Sized.answered : Answered @Sized where
  toManaged := Sized.managed
  setSecurity g := .of_tending <| .modify (by exact fun _ => rfl) (by exact fun _ => rfl)
  setUds g := .of_tending <| .modify (by exact fun _ => rfl) (by exact fun _ => rfl)
  transmit := BootProgramming.sized_transmit
  setAccess _ _ := .setProgramming fun _ => rfl
  clear := BootProgramming.sized_abort
  restart _ _ _ _ := rfl
  erase _ _ := BootProgramming.sized_erase
  download _ _ := BootProgramming.sized_download
  transfer _ _ := BootProgramming.sized_transfer
  exit := BootProgramming.sized_exit
  verify := BootProgramming.sized_verify
  abort _ := .of_tending (BootUpdate.recorded_abort Tending.recorded)
  initializeJournal _ := .of_tending (BootUpdate.recorded_initializeJournal Tending.recorded)

/-- A waiting server: its context agrees with the journal and, once the tester has unlocked it, with
    the session. -/
structure Waiting (b : Board) : Prop where
  inStep : BootProgramming.InStep b
  synced : Authorised b → Synced b
  full : BootProgramming.Full b

namespace Waiting

open BootUds (refreshed refreshed_synced)

variable {b b' : Board} {e : Turn}

theorem on (h : Waiting b) (e : Turn) : Waiting (e.on b) where
  inStep := e.inStep h.inStep
  synced ha := ⟨(h.synced ha).session, (h.synced ha).unlocked⟩
  full := h.full

/-- A server has just been started. -/
theorem boot : Ensures Activity.boot.run (fun ok b' => ok = true → Waiting b') b := by
  unfold Activity.run
  apply Ensures.skip
  intro exit b₁
  cases exit with
  | reset => exact .pure fun h => by cases h
  | jumped s => exact .pure fun h => by cases h
  | error => exact .pure fun h => by cases h
  | programming =>
    -- it starts in the default session
    intro _
    refine ⟨.of_clear rfl, fun ha => ?_, rfl⟩
    exact absurd (show (1 : Byte) = 2 from ha.1) (by decide)

theorem request {q : List Byte} {r : Option (List Byte)} (h : Waiting b)
    (hq : BootUds.processRequest q b = .done r b') : Waiting b' := by
  obtain ⟨hin, hcase⟩ := (BootUds.issues_request h.inStep).of_done hq
  have hfull : BootProgramming.Full b' :=
    (BootUds.answered_processRequest Sized.answered b h.full).of_done hq
  refine ⟨hin, fun ha => ?_, hfull⟩
  rcases hcase with ⟨-, rfl⟩ | ⟨ans, -, hgate⟩
  · exact h.synced ha
  have hsynced : Synced (refreshed b) := refreshed_synced b
  by_cases hsession : q.headD 0 = 0x10
  · rcases hgate.session hsession with ⟨-, rfl⟩ | ⟨-, hs, -⟩
    · exact hsynced
    · exact hs
  by_cases haccess : q.headD 0 = 0x27
  · cases hgate.access haccess with
    | refused => exact hsynced
    | seeded => exact refreshed_synced _
    | accepted => exact refreshed_synced _
    -- a wrong key locks the server
    | rejected => exact absurd (show false = true from ha.2) (by decide)
  by_cases hreset : q.headD 0 = 0x11
  · rcases hgate.reset hreset with ⟨-, rfl⟩ | ⟨-, -, -, rfl⟩
    · exact hsynced
    · exact ⟨hsynced.session, hsynced.unlocked⟩
  exact (hgate.rest hsession haccess hreset).synced hsynced

theorem tick (h : Waiting b) (hb : BootUds.mainFunction b = .done () b') : Waiting b' := by
  obtain ⟨hin, hgate⟩ := (BootUds.issues_mainFunction h.inStep).of_done hb
  have hfull : BootProgramming.Full b' :=
    (BootUds.answered_mainFunction Sized.answered b h.full).of_done hb
  refine ⟨hin, fun ha => hgate.synced (h.synced ?_), hfull⟩
  unfold Authorised at ha ⊢
  rw [← hgate.session, ← hgate.security]
  exact ha

/-- A turn of the server. -/
theorem serve {a : Activity} (h : Waiting b) (ha : a ≠ .boot) :
    Ensures a.run (fun _ => Waiting) b := by
  cases a with
  | boot => exact absurd rfl ha
  | request q => exact Ensures.self.bind fun r b₁ hr => .pure (h.request hr)
  | tick => exact Ensures.self.bind fun r b₁ hr => .pure (h.tick hr)

end Waiting

theorem Endures.waiting {b : Board} (h : Endures (.serving b)) : Waiting b := by
  generalize hp : Phase.serving b = p at h
  induction h generalizing b with
  | new h => cases hp
  | boot e he r _ hb ih =>
    cases hp
    exact Waiting.boot.of_done hb rfl
  | interruptBoot e he r _ ih => cases hp
  | serve a e he _ ha hb ih =>
    cases hp
    exact (((ih rfl).on e).serve ha).of_done hb
  | interrupt a e he _ ha ih => cases hp

/-! ## Turns of the main loop -/

namespace BootUds

open BootProgramming (Erasable)

variable {b b' : Board} {t : Slot} {img : Nat → Byte} {act : SlotId} {version : Word} {k : Nat}

/-- What happens to the server. -/
inductive Happening where
  | request (e : Turn) (q : List Byte)
  | tick (e : Turn)

def Happening.turn : Happening → Turn
  | .request e _ => e
  | .tick e => e

/-- The requests among what happens. -/
def requests : List Happening → List (List Byte)
  | [] => []
  | .request _ q :: hs => q :: requests hs
  | .tick _ :: hs => requests hs

/-- With `k` turns of the loop since the last request, the timer does not run out. -/
def Prompt : Nat → List Happening → Prop
  | _, [] => True
  | _, .request _ _ :: hs => Prompt 0 hs
  | k, .tick _ :: hs => k + 1 < transferTimeoutLoops ∧ Prompt (k + 1) hs

/-- The server goes through what happens, with these responses. -/
inductive Replies : Board → List Happening → List (List Byte) → Board → Prop where
  | done {b : Board} : Replies b [] [] b
  | request {b b₁ b' : Board} {e : Turn} {q r : List Byte} {hs : List Happening}
    {rs : List (List Byte)} (h : processRequest q (e.on b) = .done (some r) b₁)
    (hrest : Replies b₁ hs rs b') : Replies b (.request e q :: hs) (r :: rs) b'
  | tick {b b₁ b' : Board} {e : Turn} {hs : List Happening} {rs : List (List Byte)}
    (h : mainFunction (e.on b) = .done () b₁) (hrest : Replies b₁ hs rs b') :
    Replies b (.tick e :: hs) rs b'

/-- The timer rests while nothing is downloaded. -/
theorem mainFunction_idle (h : b.ram.programming.downloadActive = false) :
    mainFunction b = .done () b := by
  have hrun : Completes mainFunction (fun _ b' => b' = b) b := by
    unfold mainFunction
    rw [Completes.bind_getRam]
    refine .ite (fun hactive => ?_) fun _ => .pure rfl
    exact absurd (h.symm.trans hactive) (by decide)
  obtain ⟨_, b', hdone, rfl⟩ := hrun.exists_done
  exact hdone

/-- The timer counts a turn of a transfer. -/
theorem mainFunction_counts (hk : b.ram.uds.transferTimeout + 1 < transferTimeoutLoops) :
    ∃ u b', mainFunction b = .done () b' ∧ b' = { b with ram := { b.ram with uds := u } } ∧
      u.session = b.ram.uds.session ∧ u.transferTimeout ≤ b.ram.uds.transferTimeout + 1 := by
  have hrun : Completes mainFunction (fun _ b' => ∃ u,
      b' = { b with ram := { b.ram with uds := u } } ∧ u.session = b.ram.uds.session ∧
        u.transferTimeout ≤ b.ram.uds.transferTimeout + 1) b := by
    unfold mainFunction
    rw [Completes.bind_getRam]
    refine .ite (fun _ => ?_) fun _ => .pure ⟨b.ram.uds, rfl, rfl, by omega⟩
    rw [Completes.bind_setUds]
    refine .ite (fun hno => absurd hno (by omega)) fun _ => ?_
    exact .pure ⟨_, rfl, rfl, le_refl _⟩
  obtain ⟨_, b', hdone, u, hb', hsession, htimeout⟩ := hrun.exists_done
  exact ⟨u, b', hdone, hb', hsession, htimeout⟩

theorem updated_on (h : Updated t img b) (e : Turn) : Updated t img (e.on b) :=
  ⟨h.journal, h.image, h.reset⟩

theorem Updated.idle (h : Updated t img b) : b.ram.programming.downloadActive = false := by
  have hreset := h.reset
  simp only [BootProgramming.canReset, Bool.and_eq_true, Bool.not_eq_true'] at hreset
  tauto

/-- A turn of the loop leaves the server where the update is. -/
theorem Due.tick {due : List (List Byte × List Byte)} {e : Turn} (hd : Due t img act version k due b)
    (ha : Attended b) (he : e.Fair) (hk : k + 1 < transferTimeoutLoops) :
    ∃ b', mainFunction (e.on b) = .done () b' ∧ Attended b' ∧
      Due t img act version (k + 1) due b' := by
  have hidle : b.ram.programming.downloadActive = false →
      mainFunction (e.on b) = .done () (e.on b) := fun h => mainFunction_idle (b := e.on b) h
  cases hd with
  | erase lens hlens hsum h hact hversion hlength =>
    exact ⟨_, hidle (h e he).idle, ha.on e, .erase lens hlens hsum h hact hversion hlength⟩
  | download lens hlens hsum h hact hversion hlength =>
    exact ⟨_, hidle h.inactive, ha.on e, .download lens hlens hsum (prepared_on h e) hact hversion
      hlength⟩
  | blocks n c lens hlens hsum h =>
    have htimeout := h.timeout
    have hcount : (e.on b).ram.uds.transferTimeout + 1 < transferTimeoutLoops :=
      Nat.lt_of_le_of_lt (Nat.succ_le_succ htimeout) hk
    obtain ⟨u, b', hdone, rfl, hsession, hu⟩ := mainFunction_counts hcount
    refine ⟨_, hdone, ?_, .blocks n c lens hlens hsum ((h.on he).setUds ?_)⟩
    · have ha' := ha.on e
      exact ⟨ha'.inStep.congr rfl rfl rfl, hsession.trans ha'.session, ha'.unlocked,
        ha'.sessionActive, ha'.securityUnlocked⟩
    · exact Nat.le_trans hu (Nat.succ_le_succ htimeout)
  | verify h => exact ⟨_, hidle h.inactive, ha.on e, .verify (landed_on h e)⟩
  | done h => exact ⟨_, hidle h.idle, ha.on e, .done (updated_on h e)⟩

/-- However the blocks are cut and whatever turns the loop takes, an update that has been started is
    answered positively to its end. -/
theorem Due.replies (hship : Shippable t img act version) {hs : List Happening} :
    ∀ {k : Nat} {due : List (List Byte × List Byte)} {b : Board}, Due t img act version k due b →
      Attended b → Endures (.serving b) → (∀ h ∈ hs, h.turn.Fair) → Prompt k hs →
      requests hs = due.map Prod.fst →
      ∃ b', Replies b hs (due.map Prod.snd) b' ∧ Attended b' ∧ Endures (.serving b') ∧
        ∃ k', Due t img act version k' [] b' := by
  induction hs with
  | nil =>
    intro k due b hd ha hserving _ _ hrequests
    obtain rfl : due = [] := by simpa [requests] using hrequests.symm
    exact ⟨b, .done, ha, hserving, k, hd⟩
  | cons h hs ih =>
    intro k due b hd ha hserving hfair hprompt hrequests
    have hrest : ∀ h' ∈ hs, h'.turn.Fair := fun h' hh' => hfair h' (List.mem_cons_of_mem _ hh')
    have hturn : h.turn.Fair := hfair h List.mem_cons_self
    cases h with
    | request e q =>
      cases due with
      | nil => cases hrequests
      | cons x due =>
        obtain ⟨q', response⟩ := x
        obtain ⟨rfl, htail⟩ := List.cons.inj hrequests
        obtain ⟨b₁, hrun, ha₁, hd₁⟩ := hd.exchange hship ha hturn
        have hserving₁ : Endures (.serving b₁) := by
          refine hserving.serve (.request q) e hturn.calm.sound (by simp) ?_
          exact Activity.request_done hrun
        obtain ⟨b', hreplies, hend⟩ := ih hd₁ ha₁ hserving₁ hrest hprompt htail
        exact ⟨b', .request hrun hreplies, hend⟩
    | tick e =>
      obtain ⟨hk, hprompt⟩ := hprompt
      obtain ⟨b₁, hrun, ha₁, hd₁⟩ := hd.tick ha hturn hk
      have hserving₁ : Endures (.serving b₁) := by
        refine hserving.serve .tick e hturn.calm.sound (by simp) ?_
        exact Activity.tick_done hrun
      obtain ⟨b', hreplies, hend⟩ := ih hd₁ ha₁ hserving₁ hrest hprompt hrequests
      exact ⟨b', .tick hrun hreplies, hend⟩

end BootUds

namespace BootUds

/-- A tester has unlocked the programming session, and the server would start an update of `t`. -/
structure Offers (t : Slot) (b : Board) : Prop where
  authorised : Authorised b
  idle : b.ram.programming.downloadActive = false
  target : b.ram.programming.targetSlot = some t
  lifecycle : BootLifecycle.canStartUpdate b.ram.lifecycle b.ram.programming.activeSlot (some t) =
    true
  allowed : BootUpdate.beginAllowed b.ram.update b.ram.programming.activeSlot (some t) slotSize = true

/-- All requests of an update are due. -/
theorem Offers.due {b : Board} {t : Slot} {img : Nat → Byte} {lens : List Nat} (h : Offers t b)
    (hb : Endures (.serving b)) (hlens : ∀ len ∈ lens, 0 < len ∧ len ≤ 128)
    (hsum : lens.sum = slotSize) : Attended b ∧
      Due t img b.ram.programming.activeSlot b.ram.programming.activeVersion 0
        (updateRequests t img lens) b := by
  obtain ⟨⟨act, hsession⟩, -⟩ := hb.sound
  have hw := hb.waiting
  have hsynced := hw.synced h.authorised
  have hactive : b.ram.programming.sessionActive = true := by
    rw [hsynced.session, h.authorised.1]
    rfl
  have hunlocked : b.ram.programming.securityUnlocked = true := by
    rw [hsynced.unlocked, h.authorised.2]
  have hapart : b.ram.programming.activeSlot ≠ some t := by
    rw [hsession.active, ← h.target, hsession.target]
    exact serverTarget_ne act
  have hcontinue : BootUpdate.canContinue b.ram.update = true := by
    have hallowed := h.allowed
    simp only [BootUpdate.beginAllowed, Bool.and_eq_true] at hallowed
    tauto
  have hcurrent : BootJournal.Current b.mem b.ram.update.current := by
    rcases hsession.update with hn | ⟨j, hm⟩
    · -- without a journal nothing may begin
      simp [BootUpdate.canContinue, hn.valid] at hcontinue
    · rw [hm.current]
      exact BootJournal.loadLatest_iff.2 hm.journal
  have herasable : ∀ e : Turn, e.Fair → BootProgramming.Erasable t (e.on b) := fun e he =>
    { inStep := ⟨hcontinue, hcurrent⟩
      healthy := he.healthy b
      responsive := he.responsive
      ready := hsession.ready
      session := hactive
      unlocked := hunlocked
      idle := h.idle
      target := h.target
      apart := hapart
      lifecycle := h.lifecycle
      allowed := h.allowed }
  exact ⟨⟨hw.inStep, h.authorised.1, h.authorised.2, hactive, hunlocked⟩,
    .erase lens hlens hsum herasable rfl rfl hw.full⟩

/-- When nothing is due any more the slot has been updated. -/
theorem Due.updated {t : Slot} {img : Nat → Byte} {act : SlotId} {version : Word} {k : Nat}
    {b : Board} (h : Due t img act version k [] b) : Updated t img b := by
  generalize hnil : ([] : List (List Byte × List Byte)) = due at h
  cases h with
  | erase => cases hnil
  | download => cases hnil
  | blocks n c lens => cases lens <;> cases hnil
  | verify => cases hnil
  | done hupdated => exact hupdated

end BootUds

/-- Where a tester has unlocked the programming session and an update is allowed, a whole update
    goes through: however the blocks are cut and whatever turns the main loop takes between the
    requests, each of them is answered positively, and the image is in the slot and waits for its
    activation. -/
theorem Endures.update_answered {b : Board} {t : Slot} {img : Nat → Byte} {lens : List Nat}
    {hs : List BootUds.Happening} (h : Endures (.serving b)) (ho : BootUds.Offers t b)
    (hship : BootUds.Shippable t img b.ram.programming.activeSlot b.ram.programming.activeVersion)
    (hlens : ∀ len ∈ lens, 0 < len ∧ len ≤ 128) (hsum : lens.sum = slotSize)
    (hfair : ∀ x ∈ hs, x.turn.Fair) (hprompt : BootUds.Prompt 0 hs)
    (hrequests : BootUds.requests hs = (BootUds.updateRequests t img lens).map Prod.fst) :
    ∃ b', BootUds.Replies b hs ((BootUds.updateRequests t img lens).map Prod.snd) b' ∧
      Endures (.serving b') ∧ BootUds.Updated t img b' := by
  obtain ⟨hattended, hdue⟩ := ho.due h hlens hsum
  obtain ⟨b', hreplies, -, hserving, k, hend⟩ :=
    hdue.replies hship hattended h hfair hprompt hrequests
  exact ⟨b', hreplies, hserving, hend.updated⟩

/-! ## A first update -/

/-- The journal and the record of a slot that has been commissioned. -/
theorem BootUds.Adopted.exists_records {s : Slot} {mem : Nat → Byte} {b : Board}
    (h : BootUds.Adopted s mem b) (hs : Session (some s) b) :
    ∃ j c, b.view.Journal j ∧ b.view.Metadata s c ∧ c.state = BootImageState.confirmed.code := by
  obtain ⟨c, hc, hst⟩ := h.record
  have hrecord : b.view.Metadata s c := BootMetadata.load_iff.1 hc
  rcases hs.update with hn | ⟨j, hm⟩
  · have hvalid := hn.valid
    rw [h.update] at hvalid
    cases hvalid
  · exact ⟨j, c, hm.journal, hrecord, hst⟩

theorem BootUds.Adopted.session {s : Slot} {mem : Nat → Byte} {b : Board}
    (h : BootUds.Adopted s mem b) (hb : Endures (.serving b)) : Session (some s) b := by
  obtain ⟨⟨act, hs⟩, -⟩ := hb.sound
  obtain rfl : act = some s := hs.active.symm.trans h.active
  exact hs

/-- No storage fault hides the records. -/
theorem BootUds.Adopted.faultless {s : Slot} {mem : Nat → Byte} {b : Board}
    (h : BootUds.Adopted s mem b) (hs : Session (some s) b) :
    b.ram.lifecycle.storageFault = false := by
  obtain ⟨j, c, -, hrecord, -⟩ := h.exists_records hs
  by_contra hf
  exact hs.faulted (by simpa using hf) s c hrecord

/-- The other slot may be updated. -/
theorem BootUds.Adopted.offers {mem : Nat → Byte} {b : Board} (h : BootUds.Adopted .a mem b)
    (hb : Endures (.serving b)) (ha : Authorised b) : BootUds.Offers .b b := by
  have hs := h.session hb
  obtain ⟨j, c, -, hrecord, hst⟩ := h.exists_records hs
  have hstatus := ((hs.lifecycle .a).status_valid).2 ⟨c, hrecord⟩
  have hmeta := (hs.lifecycle .a).record c hrecord
  refine ⟨ha, h.idle, hs.target, ?_, ?_⟩
  · rw [h.active]
    unfold BootLifecycle.canStartUpdate
    rw [if_neg (by simp [h.faultless hs])]
    simp [hstatus, hmeta, hst]
  · rw [h.active, h.update]
    decide

/-- The version of the image that was commissioned is the active one. -/
theorem BootUds.Adopted.activeVersion {s : Slot} {mem : Nat → Byte} {b : Board}
    (h : BootUds.Adopted s mem b) (hb : Endures (.serving b))
    (hvalid : (BootImage.loadInfo mem (some s)).valid = true) :
    b.ram.programming.activeVersion =
      (BootImage.loadInfo mem (some s)).header.softwareVersion := by
  have hs := h.session hb
  obtain ⟨j, c, hj, hrecord, hst⟩ := h.exists_records hs
  rw [← h.info] at hvalid ⊢
  exact hs.version j s c hj rfl (h.faultless hs) hrecord hst hvalid

/-- Slot A has been commissioned, and slot B may be updated. -/
theorem exists_updatable : ∃ b : Board, Endures (.serving b) ∧ BootUds.Offers .b b ∧
    b.ram.programming.activeSlot = some .a ∧ b.ram.programming.activeVersion = 0x01000000 := by
  obtain ⟨b, r, b', hb, hsession, hunlocked, hb', hE, hadopted⟩ := exists_adopted
  have hsynced := (hb.waiting.on Turn.quiet).synced ⟨hsession, hunlocked⟩
  -- the commissioning leaves session and security alone
  have hgate : SameGate (Turn.quiet.on b) b' := by
    obtain ⟨-, hcase⟩ := (BootUds.issues_request (hb.waiting.on Turn.quiet).inStep).of_done hb'
    rw [BootUds.refreshed_eq_iff.2 hsynced] at hcase
    rcases hcase with ⟨-, rfl⟩ | ⟨ans, -, hgate⟩
    · exact .refl _
    · exact hgate.rest (by decide) (by decide) (by decide)
  have hauthorised : Authorised b' :=
    ⟨hgate.session.trans hsession, (congrArg (·.unlocked) hgate.security).trans hunlocked⟩
  exact ⟨b', hE, hadopted.offers hE hauthorised, hadopted.active,
    (hadopted.activeVersion hE loadInfo_packedImage.1).trans (by decide +kernel)⟩

/-- The shortest program of slot B, with a header of a later version. -/
def updateHeader : BootImageHeader :=
  { BootImageHeader.zero with
    magic := BootImage.headerMagic
    headerVersion := BootImage.headerVersion
    imageSize := 8
    imageCrc32 := 0xF751C55B
    softwareVersion := 0x02000000
    vectorAddress := 0x40000
    entryAddress := 0x40005
    headerCrc32 := 0x51335273 }

def updateImage : Nat → Byte :=
  storeWords BootProgramming.headerOffset updateHeader.toList <|
    storeWords 0 [0x20000000, 0x40005] fun _ => 0xFF

theorem shippable_updateImage : BootUds.Shippable .b updateImage (some .a) 0x01000000 := by
  refine ⟨fun i hi hi' => ?_, ?_, fun _ => ?_⟩
  · have hoff : BootProgramming.headerOffset = 225280 := rfl
    have hsize : BootImageHeader.size = 64 := rfl
    have hwords : updateHeader.toList.length = 16 := rfl
    unfold updateImage storeWords
    rw [place_outside (by omega), place_outside (by simp; omega)]
  · unfold BootProgramming.Sound
    decide +kernel
  · decide +kernel

theorem fullBlocks : (∀ len ∈ List.replicate 1792 128, 0 < len ∧ len ≤ 128) ∧
    (List.replicate 1792 128).sum = slotSize := by
  refine ⟨fun len hlen => ?_, ?_⟩
  · rw [List.eq_of_mem_replicate hlen]
    decide
  · rw [List.sum_replicate_nat]
    rfl

theorem Turn.quiet_fair : Turn.quiet.Fair := ⟨Turn.calm_quiet, fun _ h => by cases h⟩

/-- The requests one after the other, with a turn of the loop before each. -/
def BootUds.paced : List (List Byte) → List BootUds.Happening
  | [] => []
  | q :: qs => .tick Turn.quiet :: .request Turn.quiet q :: paced qs

theorem BootUds.paced_spec (qs : List (List Byte)) : requests (paced qs) = qs ∧
    (∀ x ∈ paced qs, x.turn.Fair) ∧ Prompt 0 (paced qs) := by
  induction qs with
  | nil => exact ⟨rfl, fun _ h => (by cases h), trivial⟩
  | cons q qs ih =>
    obtain ⟨hrequests, hfair, hprompt⟩ := ih
    refine ⟨congrArg (q :: ·) hrequests, fun x hx => ?_, by decide, hprompt⟩
    rcases List.mem_cons.1 hx with rfl | hx
    · exact Turn.quiet_fair
    rcases List.mem_cons.1 hx with rfl | hx
    · exact Turn.quiet_fair
    · exact hfair x hx

/-- The update of slot B in blocks of 128 bytes. -/
theorem Endures.update_answered_first : ∃ b b' : Board, ∃ hs, Endures (.serving b) ∧
    BootUds.Replies b hs
      ((BootUds.updateRequests .b updateImage (List.replicate 1792 128)).map Prod.snd) b' ∧
    Endures (.serving b') ∧ BootUds.Updated .b updateImage b' := by
  obtain ⟨b, hb, ho, hactive, hversion⟩ := exists_updatable
  have hpaced := BootUds.paced_spec
    ((BootUds.updateRequests .b updateImage (List.replicate 1792 128)).map Prod.fst)
  obtain ⟨b', hend⟩ := Endures.update_answered hb ho
    (by rw [hactive, hversion]; exact shippable_updateImage) fullBlocks.1 fullBlocks.2 hpaced.2.1
    hpaced.2.2 hpaced.1
  exact ⟨b, b', _, hb, hend⟩

/-! ## In the middle of an update -/

namespace BootUds

/-- While blocks are due the transfer is under way. -/
theorem Due.underway {t : Slot} {img : Nat → Byte} {act : SlotId} {version : Word} {k : Nat}
    {q r : List Byte} {rest : List (List Byte × List Byte)} {b : Board}
    (h : Due t img act version k ((0x36 :: q, r) :: rest) b) :
    ∃ n c b₀, Underway t img act version n c k b₀ b := by
  generalize hdue : (0x36 :: q, r) :: rest = due at h
  cases h with
  | erase lens =>
    have hq : 0x36 :: q = eraseRequest t := congrArg Prod.fst (List.cons.inj hdue).1
    cases hq
  | download lens =>
    have hq : 0x36 :: q = downloadRequest t := congrArg Prod.fst (List.cons.inj hdue).1
    cases hq
  | blocks n c lens hlens hsum h => exact ⟨n, c, _, h⟩
  | verify =>
    have hq : 0x36 :: q = [0x31, 1, 0xFF, 1] := congrArg Prod.fst (List.cons.inj hdue).1
    cases hq
  | done => cases hdue

end BootUds

/-- A server that has taken the first block of the update of slot B. -/
theorem exists_downloading : ∃ n c b₀ b, Endures (.serving b) ∧ BootUds.Attended b ∧
    BootUds.Underway .b updateImage (some .a) 0x01000000 n c 0 b₀ b := by
  obtain ⟨b, hb, ho, hactive, hversion⟩ := exists_updatable
  have hlens : List.replicate 1792 128 = 128 :: 128 :: List.replicate 1790 128 := rfl
  obtain ⟨hattended, hdue⟩ : BootUds.Attended b ∧
      BootUds.Due .b updateImage b.ram.programming.activeSlot b.ram.programming.activeVersion 0
        (BootUds.updateRequests .b updateImage (List.replicate 1792 128)) b :=
    ho.due hb fullBlocks.1 fullBlocks.2
  rw [hactive, hversion, hlens] at hdue
  have hserve : ∀ {q r : List Byte} {b b' : Board}, Endures (.serving b) →
      BootUds.processRequest q (Turn.quiet.on b) = .done (some r) b' → Endures (.serving b') :=
    fun hb hrun => hb.serve (.request _) Turn.quiet Turn.calm_quiet.sound (by simp)
      (Activity.request_done hrun)
  obtain ⟨b₁, hrun₁, ha₁, hd₁⟩ := hdue.exchange shippable_updateImage hattended Turn.quiet_fair
  obtain ⟨b₂, hrun₂, ha₂, hd₂⟩ := hd₁.exchange shippable_updateImage ha₁ Turn.quiet_fair
  obtain ⟨b₃, hrun₃, ha₃, hd₃⟩ := hd₂.exchange shippable_updateImage ha₂ Turn.quiet_fair
  obtain ⟨n, c, b₀, hunderway⟩ := hd₃.underway
  exact ⟨n, c, b₀, b₃, hserve (hserve (hserve hb hrun₁) hrun₂) hrun₃, ha₃, hunderway⟩

/-- In the middle of an update: its journal is in the state of the transfer, and what comes next
    writes under it. -/
theorem BootUds.write_ahead_downloading : ∃ b, Endures (.serving b) ∧
    b.ram.programming.downloadActive = true ∧ BootJournal.Current b.mem b.ram.update.current ∧
    b.ram.update.current.state = BootUpdateState.programming.code ∧
    ∀ (e : Turn) (q : List Byte), NorFlash.Evolves (WriteAhead (SlotStates q)) (e.on b).dev
      (processRequest q (e.on b)).state.dev := by
  obtain ⟨n, c, b₀, b, hb, hattended, hunderway⟩ := exists_downloading
  obtain ⟨b₁, t, hreaches⟩ := hb.exists_reaches
  have hactive : b.ram.programming.downloadActive = true :=
    hunderway.receiving.active hunderway.fresh.toStarted
  have hfault : b.ram.update.storageFault = false := by
    have hcan := hunderway.receiving.inStep.can
    simp only [BootUpdate.canContinue, Bool.and_eq_true, Bool.not_eq_true'] at hcan
    exact hcan.2
  obtain ⟨hturns, hflags⟩ := BootUds.write_ahead.2 b₁ t b hreaches
  obtain ⟨hcurrent, hstate⟩ := (hflags hfault).1 hactive
  exact ⟨b, hb, hactive, hcurrent, hstate, fun e q => (hturns e).1 q⟩

/-- A block with another number than the next one is refused. -/
theorem BootUds.Underway.refuses {t : Slot} {img : Nat → Byte} {act : SlotId} {version : Word}
    {n k : Nat} {c sequence : Byte} {b₀ b : Board} (h : Underway t img act version n c k b₀ b)
    (ha : Attended b) (hne : sequence ≠ c) : processRequest [0x36, sequence, 0] b =
      .done (some (negative 0x36 0x73)) b := by
  have hs := h.fresh.toStarted
  have htransfer : Completes (BootProgramming.transfer sequence [0])
      (fun nrc b' => nrc = 0x73 ∧ b' = b) b := by
    unfold BootProgramming.transfer
    rw [Completes.bind_getRam]
    dsimp only
    refine .ite (fun hno => absurd (h.receiving.access hs) hno) fun _ => ?_
    refine .ite (fun hno => absurd hno (by simp [h.receiving.active hs])) fun _ => ?_
    refine .ite (fun _ => .pure ⟨rfl, rfl⟩) fun hno => absurd hno ?_
    rw [h.counter]
    exact not_not_intro hne
  have hrefused : Completes (service 0x36 [0x36, sequence, 0])
      (fun ans b' => ans = .error 0x73 ∧ b' = b) b := by
    rw [service_transfer]
    unfold transferData
    refine .ite (fun hno => absurd hno (by simp)) fun _ => htransfer.bind ?_
    rintro _ _ ⟨rfl, rfl⟩
    exact .ite (fun hno => absurd hno (by decide)) fun _ => .pure ⟨rfl, rfl⟩
  obtain ⟨ans, b', hservice, hans, hb'⟩ := hrefused.exists_done
  rw [hans, hb'] at hservice
  have hlength : ¬ ([0x36, sequence, 0].length = 0 ∨
      BootIsoTp.maxPduLength < [0x36, sequence, 0].length) := by
    simp [BootIsoTp.maxPduLength]
  rw [processRequest_eq hlength, refreshed_eq_iff.2 ha.synced]
  show finish 0x36 (service 0x36 [0x36, sequence, 0] b) = _
  rw [hservice]
  rfl

/-- In the middle of an update a block with another number is refused, and nothing changes. -/
theorem BootUds.rejected_unchanged_downloading : ∃ b q b', Endures (.serving b) ∧
    b.ram.programming.downloadActive = true ∧
    processRequest q (Turn.quiet.on b) = .done (some (negative 0x36 0x73)) b' ∧
    Unchanged (Turn.quiet.on b) b' := by
  obtain ⟨n, c, b₀, b, hb, hattended, hunderway⟩ := exists_downloading
  obtain ⟨b₁, t, hreaches⟩ := hb.exists_reaches
  have hactive : b.ram.programming.downloadActive = true :=
    hunderway.receiving.active hunderway.fresh.toStarted
  have hrun := (hunderway.on Turn.quiet_fair).refuses (hattended.on Turn.quiet)
    (show c + 1 ≠ c by bv_omega)
  refine ⟨b, [0x36, c + 1, 0], _, hb, hactive, hrun, ?_⟩
  exact (rejected_unchanged_iff b₁ b t hreaches Turn.quiet [0x36, c + 1, 0] 0x73 _ hrun (by decide)
    fun h => absurd h.2 (by decide)).2 ⟨hattended.synced, fun h =>
    absurd (show (0x36 : Byte) = 0x34 from h.1) (by decide)⟩

/-- While the transfer is under way the journal says so. -/
theorem BootUds.Underway.journal {t : Slot} {img : Nat → Byte} {act : SlotId} {version : Word}
    {n k : Nat} {c : Byte} {b₀ b : Board} (h : Underway t img act version n c k b₀ b)
    (hb : Endures (.serving b)) : ∃ j, BootJournal.Current b.mem j ∧ ¬ Resting j := by
  obtain ⟨b₁, _, hreaches⟩ := hb.exists_reaches
  have hactive : b.ram.programming.downloadActive = true := h.receiving.active h.fresh.toStarted
  have hflag : BootProgramming.flagged b.ram.programming = true := by
    simp [BootProgramming.flagged, hactive]
  have hcan := h.receiving.inStep.can
  refine ⟨_, hreaches.inStep.current hcan hflag, ?_⟩
  unfold Resting
  rw [(hreaches.inStep.downloading hcan hactive).1]
  decide

/-- The power is lost in the middle of an update, and at once again when the device starts.  The
    start after that recovers, and the next one finds nothing to do. -/
theorem Endures.recovery_idempotent_downloading : ∃ (d : Device Note) (w : RetainedRecord)
    (b₁ b₂ : Board), (∃ j, BootJournal.Current d.mem j ∧ ¬ Resting j) ∧
    BootManager.init (Turn.severed.restart w d) = .cut b₁ ∧ b₁.mem = d.mem ∧
    BootManager.init (Turn.quiet.restart w b₁.dev) = .done () b₂ ∧ b₂.mem ≠ d.mem ∧
    (BootManager.init (Turn.quiet.restart w b₂.dev)).state.dev.log = b₂.dev.log := by
  obtain ⟨n, c, b₀, b, hb, -, hunderway⟩ := exists_downloading
  have he := Turn.calm_quiet
  have hinterrupted : Endures (.reset (Turn.quiet.on b).dev) :=
    .interrupt (.request []) Turn.quiet he.sound hb (Activity.request_ne_boot [])
  have hc : Consistent (View.of b.dev.mem).durable := hinterrupted.sound
  obtain ⟨j, hj, hst⟩ := hunderway.journal hb
  obtain ⟨b₁, hcut, hmem⟩ := Consistent.severed (d := (Turn.quiet.on b).dev) hc hj hst ⟨0, 0, 0, 0⟩
  have hd : Endures (.reset b₁.dev) := by
    have hboot := hinterrupted.interruptBoot Turn.severed Turn.sound_severed ⟨0, 0, 0, 0⟩
    have hstate : Activity.boot.run (Turn.severed.restart ⟨0, 0, 0, 0⟩ (Turn.quiet.on b).dev) =
        .cut b₁ := by
      unfold Activity.run BootManager.run
      simp only [bind, hcut]
    rw [hstate] at hboot
    exact hboot
  have hc₁ : Consistent (View.of b₁.dev.mem).durable := hd.sound
  obtain ⟨_, b₂, hinit, -⟩ := (BootManager.lifts_init
    (he.sound.restart ⟨0, 0, 0, 0⟩ b₁.dev) hc₁.unhindered).exists_done he.uncut
  refine ⟨_, _, b₁, b₂, ⟨j, hj, hst⟩, hcut, hmem, hinit, fun hsame => hst ?_,
    (hd.recovery_idempotent he.sound hinit Turn.quiet ⟨0, 0, 0, 0⟩).2.1⟩
  obtain ⟨-, -, hrest, -⟩ := hc₁.rested he.sound hinit
  refine hrest.journal j (BootJournal.loadLatest_iff.1 ?_)
  rw [Board.mem] at hsame
  exact hsame ▸ hj
