import BootloaderV2.History
import BootloaderV2.Revalidation
import BootloaderV2.Transfer

/-!
# A whole update

The requests of an update as the tester sends them: erase, download, the blocks of the image, exit
and verify.  On a device whose flash and CAN driver work each of them is answered positively, however
the image is cut into blocks and however the main loop turns in between.
-/

open BootConfig NorFlash CrashM TwoCopy

theorem CrashM.Completes.bind_setUds {β : Type} {P : β → Board → Prop} {b : Board} {n : BootM β}
    {g : BootUds.State → BootUds.State} :
    Completes (BootM.setUds g >>= fun _ => n) P b ↔
      Completes n P { b with ram := { b.ram with uds := g b.ram.uds } } := Iff.rfl

namespace BootProgramming

open BootUpdate (InStep JournalOnly settled outcome)
open BootIsoTp (Responsive)

variable {b b' : Board} {t : Slot} {address size : Nat} {img : Nat → Byte}

/-! ## What the steps leave of the context -/

/-- The active image of the context. -/
def SameActive (c c' : Context) : Prop :=
  c'.activeSlot = c.activeSlot ∧ c'.activeVersion = c.activeVersion

/-- What a successful erasure leaves of the context. -/
theorem ensures_erase_active : Ensures (erase address size) (fun r b' => r = 0 →
    SameActive b.ram.programming b'.ram.programming ∧
      b'.ram.programming.maxBlockLength = b.ram.programming.maxBlockLength) b := by
  unfold erase
  rw [Ensures.bind_getRam]
  dsimp only
  refine .ite (fun h => .pure fun h0 => absurd h0 h) fun _ => ?_
  refine .ite (fun _ => .pure fun h => absurd h (by decide)) fun _ => ?_
  refine .ite (fun _ => .pure fun h => absurd h (by decide)) fun hexact => ?_
  refine .ite (fun _ => .pure fun h => absurd h (by decide)) fun _ => ?_
  obtain ⟨t, ht, hne, rfl, rfl⟩ := exists_target_of_exact (by simpa using hexact)
  rw [ht]
  unfold abort
  rw [Ensures.bind_setProgramming]
  refine BootFlash.ensures_configureSlots.bind fun ok b₁ h₁ => ?_
  refine .ite (fun _ => .pure fun h => absurd h (by decide)) fun hok => ?_
  obtain ⟨_, _, rfl⟩ := h₁ (by simpa using hok)
  rw [BootIsoTp.ensures_bind_transmit]
  refine .ite (fun _ => .pure fun h => absurd h (by decide)) fun _ => ?_
  refine ensures_eraseTarget_cleared.mono fun r b' h hr => ?_
  have hcontext : b'.ram.programming = { aborted b.ram.programming with
      targetAddress := t.base, targetSize := slotSize, eraseComplete := true } := (h hr).context
  rw [hcontext]
  exact ⟨⟨rfl, rfl⟩, rfl⟩

/-- The flags of a download that has been started. -/
structure Flags (c c' : Context) : Prop where
  active : SameActive c c'
  erased : c'.eraseComplete = true
  complete : c'.transferComplete = false
  unverified : c'.imageVerified = false

theorem ensures_download_flags : Ensures (download address size) (fun r b' => r = 0 →
    Flags b.ram.programming b'.ram.programming) b := by
  unfold download
  rw [Ensures.bind_getRam]
  dsimp only
  refine .ite (fun h => .pure fun h0 => absurd h0 h) fun _ => ?_
  refine .ite (fun _ => .pure fun h => absurd h (by decide)) fun _ => ?_
  refine .ite (fun _ => .pure fun h => absurd h (by decide)) fun hready => ?_
  simp only [Bool.or_eq_true, not_or, Bool.not_eq_true', Bool.not_eq_false, Bool.not_eq_true]
    at hready
  refine BootUpdate.ensures_setState.bind fun ok b₁ h₁ => ?_
  refine .ite (fun _ => .pure fun h => absurd h (by decide)) fun hok => ?_
  obtain ⟨_, hl⟩ := h₁ (by simpa using hok)
  rw [Ensures.bind_setProgramming]
  have hprog : b₁.ram.programming = b.ram.programming := by rw [hl.ram]
  refine .pure fun _ => ⟨⟨?_, ?_⟩, ?_, ?_, rfl⟩
  · show b₁.ram.programming.activeSlot = _
    rw [hprog]
  · show b₁.ram.programming.activeVersion = _
    rw [hprog]
  · show b₁.ram.programming.eraseComplete = true
    rw [hprog]
    exact hready.1.1.1.1.1
  · show b₁.ram.programming.transferComplete = false
    rw [hprog]
    exact hready.1.1.1.2

/-- A transfer that has just been started, on an active image that is not its target. -/
structure Fresh (t : Slot) (act : SlotId) (version : Word) (b : Board) : Prop
    extends Started t b where
  healthy : b.dev.Healthy
  blockLength : b.ram.programming.maxBlockLength = downloadMaxBlockLength
  erased : b.ram.programming.eraseComplete = true
  complete : b.ram.programming.transferComplete = false
  unverified : b.ram.programming.imageVerified = false
  activeSlot : b.ram.programming.activeSlot = act
  activeVersion : b.ram.programming.activeVersion = version

/-- The image is in slot `t`, but for its header, which is staged. -/
structure Landed (t : Slot) (img : Nat → Byte) (act : SlotId) (version : Word) (b : Board) : Prop
    extends Transferred t b where
  activeSlot : b.ram.programming.activeSlot = act
  activeVersion : b.ram.programming.activeVersion = version
  payload : ∀ i, i < headerOffset → b.mem (t.base + i) = img i
  staged : ∀ i, i < BootImageHeader.size →
    b.ram.programming.stagedHeader.bytes i = img (headerOffset + i)

/-- `BootProgramming_Exit` after the last byte of the image. -/
theorem completes_exit_landed {act : SlotId} {version : Word} {b₀ : Board}
    (hf : Fresh t act version b₀) (h : Receiving t img b₀ slotSize b)
    (hp : Progress b₀ slotSize b) :
    Completes exit (fun r b' => r = 0 ∧ Landed t img act version b') b := by
  have hs := hf.toStarted
  have hst := hp.state hs
  have hdelivered := h.delivered hs hp
  unfold exit
  rw [Completes.bind_getRam]
  dsimp only
  rw [h.active hs, h.targetSize hs, hp.received, h.carry.buffered, h.carry.programmed]
  refine .ite (fun hno => absurd (h.access hs) hno) fun _ => ?_
  refine .ite (fun hno => absurd hno (by decide)) fun _ => ?_
  refine (completes_markTransferComplete h.inStep (h.ready hs) h.healthy hst).bind ?_
  rintro ok b₁ ⟨rfl, _, hl⟩
  refine .ite (fun hno => absurd hno (by decide)) fun _ => ?_
  rw [Completes.bind_setProgramming]
  obtain ⟨j, _, hcur⟩ := hl.record
  have hprog : b₁.ram.programming = b.ram.programming := by rw [hl.ram]
  have hflash : b₁.ram.flash = b.ram.flash := by rw [hl.ram]
  have hcontext := h.context
  have hcodes := congrArg BootUpdateJournal.activeSlot hp.record
  have hcodes' := congrArg BootUpdateJournal.targetSlot hp.record
  have haccess := accessCheck_eq_zero.1 (h.access hs)
  have hhdr := t.header_lt_journal
  have hfs : flashSectorSize = 4096 := rfl
  have hps : flashPhraseSize = 8 := rfl
  have hss : slotSize = 229376 := rfl
  have hoff : headerOffset = 225280 := rfl
  have hactive : b.ram.programming.activeSlot = act := by
    rw [hcontext]
    exact hf.activeSlot
  refine .pure ⟨rfl, ⟨?_, ?_, ⟨hl.inStep.can, hl.inStep.current⟩, ?_, ?_, rfl, rfl, ?_, ?_, ?_, ?_,
    ?_, ?_⟩, ?_, ?_, ?_, ?_⟩
  · dsimp only
    rw [hflash, hprog]
    exact h.configured hs
  · rw [accessCheck_eq_zero]
    dsimp only
    rw [hprog]
    exact ⟨haccess.1, haccess.2.1, hl.inStep.can⟩
  · dsimp only
    rw [hprog]
    exact h.target hs
  · dsimp only
    rw [hprog, hcontext]
    exact hf.erased
  · dsimp only
    rw [hprog, hcontext]
    exact hf.unverified
  · dsimp only
    rw [hcur]
    rfl
  · dsimp only
    rw [hcur, hprog, hcontext]
    exact hcodes.trans hs.activeCode
  · dsimp only
    rw [hcur]
    exact hcodes'.trans hs.targetCode
  · dsimp only
    rw [hcur, hprog]
    rfl
  · intro i hi
    rw [← hdelivered.marker i hi]
    exact hl.only _ (.inl (by omega))
  · dsimp only
    rw [hprog]
    exact hactive
  · dsimp only
    rw [hprog, hcontext]
    exact hf.activeVersion
  · intro i hi
    rw [← hdelivered.payload i hi]
    exact hl.only _ (.inl (by omega))
  · dsimp only
    rw [hprog]
    exact hdelivered.staged

/-! ## The verification and the payload -/

/-- A command in the journal, or in the header sector of slot `t`. -/
def HeaderOnly (t : Slot) : CommandRel := fun c _ _ =>
  c.InJournal ∨ t.header ≤ c.address ∧ c.address + c.size ≤ t.header + flashSectorSize

theorem HeaderOnly.of_keeping {c : Command} {m m' : Nat → Byte}
    (h : BootJournal.Keeping c m m') : HeaderOnly t c m m' := .inl h.1

/-- Routine FF01 leaves the payload alone. -/
theorem issues_verify_header (ht : b.ram.programming.targetSlot = some t) :
    Issues (HeaderOnly t) verify (fun _ _ => True) b := by
  have habort : ∀ {reason : BootUpdateResult} {r : Byte} {c : Board},
      Issues (HeaderOnly t) (do let _ ← BootUpdate.abort reason; return r) (fun _ _ => True) c :=
    (BootUpdate.issues_abort.weaken fun _ _ _ hc => .of_keeping hc).bind fun _ _ _ => .pure trivial
  have hgiveUp : ∀ {c : Board}, Issues (HeaderOnly t)
      (do let _ ← BootUpdate.abort .programFailed; abort; return (0x72 : Byte)) (fun _ _ => True)
      c := by
    intro c
    refine (BootUpdate.issues_abort.weaken fun _ _ _ hc => .of_keeping hc).bind fun _ c' _ => ?_
    unfold abort
    rw [Issues.bind_setProgramming]
    exact .pure trivial
  have hpublished : ∀ {d : Context} {c : Board},
      Issues (HeaderOnly t) (verifyPublished d) (fun _ _ => True) c := by
    intro d c
    unfold verifyPublished
    rw [Issues.bind_flash, Issues.bind_setProgramming]
    refine .ite (fun _ => habort) fun _ => ?_
    refine (BootUpdate.issues_markVerified.weaken fun _ _ _ hc => .of_keeping hc).bind
      fun ok c' _ => ?_
    refine .ite (fun _ => .pure trivial) fun _ => ?_
    rw [Issues.bind_setProgramming]
    exact .pure trivial
  have hpublish : ∀ {d : Context} {c : Board}, d.targetSlot = some t →
      Issues (HeaderOnly t) (verifyPublish d) (fun _ _ => True) c := by
    intro d c hd
    have hsize : BootImageHeader.size ≤ flashSectorSize := by decide
    unfold verifyPublish
    rw [hd]
    dsimp only
    rw [show BootSlot.getHeaderAddress (some t) = t.header from rfl]
    refine (BootFlash.issues_erase fun k _ => .inr ⟨le_refl _, le_refl _⟩).bind fun ok c₁ _ => ?_
    refine .ite (fun _ => hgiveUp) fun _ => ?_
    refine (BootFlash.issues_program fun m k o p _ _ ho =>
      .inr ⟨show t.header ≤ t.header + o by omega,
        show t.header + o + flashPhraseSize ≤ _ by omega⟩).bind fun ok c₂ _ => ?_
    refine .ite (fun _ => hgiveUp) fun _ => ?_
    exact issues_transmit.bind fun ok c₃ _ => .ite (fun _ => .pure trivial) fun _ => hpublished
  unfold verify
  rw [Issues.bind_getRam]
  dsimp only
  refine .ite (fun _ => .pure trivial) fun _ => .ite (fun _ => .pure trivial) fun _ => ?_
  refine issues_transmit.bind fun ok c₁ _ => .ite (fun _ => .pure trivial) fun _ => ?_
  refine (BootUpdate.issues_setState.weaken fun _ _ _ hc => .of_keeping hc).bind fun ok c₂ _ => ?_
  refine .ite (fun _ => .pure trivial) fun _ => ?_
  rw [Issues.bind_flash, Issues.bind_setProgramming]
  refine .ite (fun _ => habort) fun _ => .ite (fun _ => habort) fun _ => ?_
  exact issues_transmit.bind fun ok c₃ _ => .ite (fun _ => .pure trivial) fun _ => hpublish ht

/-- Such commands leave the rest of the slots alone. -/
theorem mem_of_headerOnly {d d' : Device Note} (h : Evolves (HeaderOnly t) d d') {a : Nat}
    (ha : a < t.header) : d'.mem a = d.mem a := by
  have hend := t.header_lt_journal
  have hfs : flashSectorSize = 4096 := rfl
  induction h with
  | refl => rfl
  | command c n _ hc ih =>
    rw [← ih]
    refine c.effect_outside n _ ?_
    rcases hc with ⟨k, hlo, _⟩ | ⟨hlo, _⟩
    · have hk : journalCopy0Address ≤ FlashDriver.journalAddress k :=
        Nat.le_add_right _ _
      omega
    · omega

end BootProgramming

/-! ## The requests and their responses -/

/-- A turn in which no flash command fails, the power stays on and every response goes out. -/
structure Turn.Fair (e : Turn) : Prop where
  calm : e.Calm
  responsive : ∀ ok ∈ e.hw.transmits, ok = true

theorem Turn.Fair.healthy {e : Turn} (h : e.Fair) (b : Board) : (e.on b).dev.Healthy :=
  ⟨h.calm.sound, h.calm.uncut⟩

namespace BootUds

open BootProgramming (InStep Prepared Erasable Fresh Landed Receiving Progress TailErased block
  headerOffset downloadMaxBlockLength Sound HeaderOnly)
open BootIsoTp (Responsive)

/-- The header that an image ends with. -/
def headerOf (img : Nat → Byte) : BootImageHeader :=
  BootImageHeader.ofBytes fun i => img (headerOffset + i)

/-- An image for slot `t` that a server with this active image accepts. -/
structure Shippable (t : Slot) (img : Nat → Byte) (act : SlotId) (version : Word) : Prop where
  tail : TailErased img
  sound : Sound (place t.base slotSize img fun _ => 0xFF) t (headerOf img)
  newer : act.isSome = true →
    BootVersion.compare (headerOf img).softwareVersion version = .greater

def eraseRequest (t : Slot) : List Byte :=
  [0x31, 1, 0xFF, 0] ++ write32 (BitVec.ofNat 32 t.base) ++ write32 (BitVec.ofNat 32 slotSize)

def downloadRequest (t : Slot) : List Byte :=
  [0x34, 0, 0x44] ++ write32 (BitVec.ofNat 32 t.base) ++ write32 (BitVec.ofNat 32 slotSize)

/-- The blocks of the image from byte `n` on, the first of them with number `c`. -/
def transferRequests (img : Nat → Byte) (n : Nat) (c : Byte) : List Nat → List (List Byte × List Byte)
  | [] => []
  | len :: lens =>
    (0x36 :: c :: block img n len, [0x76, c]) :: transferRequests img (n + len) (c + 1) lens

def closing : List (List Byte × List Byte) :=
  [([0x37], [0x77]), ([0x31, 1, 0xFF, 1], [0x71, 1, 0xFF, 1])]

/-- The requests of an update in blocks of these lengths, each with its positive response. -/
def updateRequests (t : Slot) (img : Nat → Byte) (lens : List Nat) : List (List Byte × List Byte) :=
  (eraseRequest t, [0x71, 1, 0xFF, 0]) :: (downloadRequest t, [0x74, 0x20, 0, 130]) ::
    (transferRequests img 0 1 lens ++ closing)

/-! ## One request -/

/-- A tester has unlocked the programming session. -/
structure Attended (b : Board) : Prop where
  inStep : InStep b
  session : b.ram.uds.session = 2
  unlocked : b.ram.security.unlocked = true
  sessionActive : b.ram.programming.sessionActive = true
  securityUnlocked : b.ram.programming.securityUnlocked = true

variable {b b' : Board} {t : Slot} {img : Nat → Byte} {q response : List Byte} {act : SlotId}
  {version : Word} {n k : Nat} {c : Byte}

theorem Attended.synced (h : Attended b) : Synced b :=
  ⟨by rw [h.sessionActive, h.session]; rfl, by rw [h.securityUnlocked, h.unlocked]⟩

theorem Attended.on (h : Attended b) (e : Turn) : Attended (e.on b) :=
  ⟨h.inStep.congr rfl rfl rfl, h.session, h.unlocked, h.sessionActive, h.securityUnlocked⟩

theorem Attended.sameGate (h : Attended b) (hin : InStep b') (hg : SameGate b b') : Attended b' :=
  ⟨hin, hg.session.trans h.session, by rw [hg.security, h.unlocked],
    hg.sessionActive.trans h.sessionActive, hg.securityUnlocked.trans h.securityUnlocked⟩

/-- A request that its service answers positively. -/
theorem Attended.answers {Q : Board → Prop} {sid : Byte} (h : Attended b)
    (hs : Completes (service sid q) (fun ans b' => ans = .ok response ∧ Q b') b)
    (hsid : q.headD 0 = sid) (hlen : 0 < q.length ∧ q.length ≤ BootIsoTp.maxPduLength)
    (hgate : sid ≠ 0x10 ∧ sid ≠ 0x27 ∧ sid ≠ 0x11) :
    ∃ b', processRequest q b = .done (some response) b' ∧ Attended b' ∧ Q b' := by
  subst hsid
  obtain ⟨ans, b', hrun, rfl, hq⟩ := hs.exists_done
  have hdone : processRequest q b = .done (some response) b' := by
    have hcomp : Completes (processRequest q) (fun r c => r = some response ∧ c = b') b := by
      unfold processRequest
      refine .ite (fun hno => absurd hno (by omega)) fun _ => ?_
      dsimp only
      rw [Completes.bind_getRam]
      show Completes (service (q.headD 0) q >>= fun ans => _) _ (refreshed b)
      rw [refreshed_eq_iff.2 h.synced]
      have hservice : Completes (service (q.headD 0) q)
          (fun ans c => ans = .ok response ∧ c = b') b := by
        unfold Completes wp
        rw [hrun]
        exact ⟨rfl, rfl⟩
      refine hservice.bind ?_
      rintro ans c ⟨rfl, rfl⟩
      exact .pure ⟨rfl, rfl⟩
    obtain ⟨r, c, hrun', rfl, rfl⟩ := hcomp.exists_done
    exact hrun'
  refine ⟨b', hdone, ?_, hq⟩
  obtain ⟨hin, hcase⟩ := (issues_request h.inStep).of_done hdone
  rcases hcase with ⟨hno, _⟩ | ⟨ans, _, hserved⟩
  · cases hno
  · rw [refreshed_eq_iff.2 h.synced] at hserved
    exact h.sameGate hin (hserved.rest hgate.1 hgate.2.1 hgate.2.2)

/-! ## What is due -/

/-- The transfer that was started on `b₀` stands at byte `n` and block `c`, and the timer at `k` at
    most. -/
structure Underway (t : Slot) (img : Nat → Byte) (act : SlotId) (version : Word) (n : Nat) (c : Byte)
    (k : Nat) (b₀ b : Board) : Prop where
  fresh : Fresh t act version b₀
  receiving : Receiving t img b₀ n b
  progress : Progress b₀ n b
  counter : b.ram.programming.expectedBlockSequenceCounter = c
  timeout : b.ram.uds.transferTimeout ≤ k

/-- The whole image is in the slot, and a reset will activate it. -/
structure Updated (t : Slot) (img : Nat → Byte) (b : Board) : Prop where
  journal : ∃ j, BootJournal.Current b.mem j ∧
    j.state = BootUpdateState.pendingActivation.code ∧ j.target = some t ∧
    j.cachedHeader = headerOf img
  image : ∀ i, i < slotSize → b.mem (t.base + i) = img i
  reset : BootProgramming.canReset b.ram = true

/-- The requests that are left of an update. -/
inductive Due (t : Slot) (img : Nat → Byte) (act : SlotId) (version : Word) (k : Nat) :
    List (List Byte × List Byte) → Board → Prop where
  | erase {b : Board} (lens : List Nat) (hlens : ∀ len ∈ lens, 0 < len ∧ len ≤ 128)
    (hsum : lens.sum = slotSize) (h : ∀ e : Turn, e.Fair → Erasable t (e.on b))
    (hact : b.ram.programming.activeSlot = act)
    (hversion : b.ram.programming.activeVersion = version)
    (hlength : b.ram.programming.maxBlockLength = downloadMaxBlockLength) :
    Due t img act version k (updateRequests t img lens) b
  | download {b : Board} (lens : List Nat) (hlens : ∀ len ∈ lens, 0 < len ∧ len ≤ 128)
    (hsum : lens.sum = slotSize) (h : Prepared t b) (hact : b.ram.programming.activeSlot = act)
    (hversion : b.ram.programming.activeVersion = version)
    (hlength : b.ram.programming.maxBlockLength = downloadMaxBlockLength) :
    Due t img act version k
      ((downloadRequest t, [0x74, 0x20, 0, 130]) :: (transferRequests img 0 1 lens ++ closing)) b
  | blocks {b₀ b : Board} (n : Nat) (c : Byte) (lens : List Nat)
    (hlens : ∀ len ∈ lens, 0 < len ∧ len ≤ 128) (hsum : n + lens.sum = slotSize)
    (h : Underway t img act version n c k b₀ b) :
    Due t img act version k (transferRequests img n c lens ++ closing) b
  | verify {b : Board} (h : Landed t img act version b) :
    Due t img act version k [([0x31, 1, 0xFF, 1], [0x71, 1, 0xFF, 1])] b
  | done {b : Board} (h : Updated t img b) : Due t img act version k [] b

/-! ### Turns and the timer -/

theorem prepared_on (h : Prepared t b) (e : Turn) : Prepared t (e.on b) :=
  ⟨⟨h.configured, h.access, ⟨h.inStep.can, h.inStep.current⟩, h.emptied, h.target, h.address, h.size,
    h.received, h.programmed, h.buffered, h.counter, h.expected, h.committed, h.activeCode,
    h.targetCode⟩, h.erased, h.inactive, h.incomplete, h.state⟩

theorem landed_on (h : Landed t img act version b) (e : Turn) :
    Landed t img act version (e.on b) :=
  ⟨⟨h.configured, h.access, ⟨h.inStep.can, h.inStep.current⟩, h.target, h.erased, h.complete,
    h.inactive, h.unverified, h.state, h.activeCode, h.targetCode, h.header, h.marker⟩,
    h.activeSlot, h.activeVersion, h.payload, h.staged⟩

theorem Underway.on {b₀ : Board} {e : Turn} (h : Underway t img act version n c k b₀ b)
    (he : e.Fair) : Underway t img act version n c k b₀ (e.on b) where
  fresh := h.fresh
  receiving := ⟨he.healthy b, h.receiving.ram, h.receiving.context,
    ⟨h.receiving.inStep.can, h.receiving.inStep.current⟩, h.receiving.carry, h.receiving.filled⟩
  progress := ⟨h.progress.received, h.progress.record⟩
  counter := h.counter
  timeout := h.timeout

/-- The timer does not bear on the transfer. -/
theorem Underway.setUds {b₀ : Board} {u : State} {k' : Nat}
    (h : Underway t img act version n c k b₀ b) (hu : u.transferTimeout ≤ k') :
    Underway t img act version n c k' { b₀ with ram := { b₀.ram with uds := u } }
      { b with ram := { b.ram with uds := u } } := by
  have hs := h.fresh
  refine ⟨⟨⟨⟨hs.configured, hs.access, ⟨hs.inStep.can, hs.inStep.current⟩, hs.emptied, hs.target,
    hs.address, hs.size, hs.received, hs.programmed, hs.buffered, hs.counter, hs.expected,
    hs.committed, hs.activeCode, hs.targetCode⟩, hs.active, hs.staged, hs.state⟩, hs.healthy,
    hs.blockLength, hs.erased, hs.complete, hs.unverified, hs.activeSlot, hs.activeVersion⟩, ?_,
    ⟨h.progress.received, h.progress.record⟩, h.counter, hu⟩
  have hr := h.receiving
  have hram := congrArg (fun ram : Ram => { ram with uds := u }) hr.ram
  exact ⟨hr.healthy, hram, hr.context, ⟨hr.inStep.can, hr.inStep.current⟩, hr.carry, hr.filled⟩

theorem Underway.start {b₀ : Board} (h : Fresh t act version b₀)
    (hu : b₀.ram.uds.transferTimeout ≤ k) : Underway t img act version 0 1 k b₀ b₀ :=
  ⟨h, .start h.toStarted h.healthy, .start h.toStarted, h.counter, hu⟩

/-! ### The services -/

theorem service_routine : service 0x31 q = routineControl q := by
  unfold service
  rw [if_neg (by decide), if_neg (by decide), if_neg (by decide), if_pos rfl]

theorem service_download : service 0x34 q = requestDownload q := by
  unfold service
  rw [if_neg (by decide), if_neg (by decide), if_neg (by decide), if_neg (by decide), if_pos rfl]

theorem service_transfer : service 0x36 q = transferData q := by
  unfold service
  rw [if_neg (by decide), if_neg (by decide), if_neg (by decide), if_neg (by decide),
    if_neg (by decide), if_pos rfl]

theorem service_exit : service 0x37 q = transferExit q := by
  unfold service
  rw [if_neg (by decide), if_neg (by decide), if_neg (by decide), if_neg (by decide),
    if_neg (by decide), if_neg (by decide), if_pos rfl]

theorem completes_answer {m : BootM Byte} {Q : Board → Prop}
    (h : Completes m (fun r b' => r = 0 ∧ Q b') b) :
    Completes (do return answer (← m) response) (fun ans b' => ans = .ok response ∧ Q b') b := by
  refine h.bind ?_
  rintro r b' ⟨rfl, hq⟩
  exact .pure ⟨rfl, hq⟩

/-- Routine FF00 for the whole slot. -/
theorem completes_eraseRoutine (h : Erasable t b) (hlen : q.length = 12) (h1 : q.getD 1 0 = 1)
    (h2 : q.getD 2 0 = 0xFF) (h3 : q.getD 3 0 = 0) (haddress : (read32 (q.drop 4)).toNat = t.base)
    (hsize : (read32 (q.drop 8)).toNat = slotSize) :
    Completes (routineControl q) (fun ans b' => ans = .ok [0x71, 1, 0xFF, 0] ∧
      Prepared t b' ∧ BootProgramming.SameActive b.ram.programming b'.ram.programming ∧
      b'.ram.programming.maxBlockLength = b.ram.programming.maxBlockLength) b := by
  have hroutine : (q.getD 2 0).toNat * 256 + (q.getD 3 0).toNat = routineEraseApp := by
    rw [h2, h3]
    rfl
  unfold routineControl
  refine .ite (fun hno => absurd hno (by omega)) fun _ => .ite (fun hno => absurd h1 hno) fun _ => ?_
  dsimp only
  refine .ite (fun _ => ?_) fun hno => absurd hroutine hno
  refine .ite (fun hno => absurd hlen hno) fun _ => ?_
  rw [haddress, hsize, h2, h3]
  refine completes_answer ?_
  refine (((BootProgramming.completes_erase h).and_ensures
    BootProgramming.ensures_erase_prepared).and_ensures
    BootProgramming.ensures_erase_active).mono ?_
  rintro r b' ⟨⟨⟨rfl, _⟩, hprepared⟩, hactive⟩
  obtain ⟨t', hbase, hp, _⟩ := hprepared rfl
  obtain rfl : t = t' := by
    revert hbase
    cases t <;> cases t' <;> decide
  exact ⟨rfl, hp, hactive rfl⟩

/-- Service 34 for the whole slot. -/
theorem completes_requestDownload (h : Prepared t b) (hd : b.dev.Healthy) (hr : Responsive b)
    (hlen : q.length = 11) (h1 : q.getD 1 0 = 0) (h2 : q.getD 2 0 = 0x44)
    (haddress : (read32 (q.drop 3)).toNat = t.base) (hsize : (read32 (q.drop 7)).toNat = slotSize)
    (hact : b.ram.programming.activeSlot = act) (hversion : b.ram.programming.activeVersion = version)
    (hlength : b.ram.programming.maxBlockLength = downloadMaxBlockLength) :
    Completes (requestDownload q) (fun ans b' => ans = .ok [0x74, 0x20, 0, 130] ∧
      Underway t img act version 0 1 k b' b') b := by
  unfold requestDownload
  refine .ite (fun hno => absurd hlen hno) fun _ => ?_
  refine .ite (fun hno => absurd hno (by rw [h1, h2]; decide)) fun _ => ?_
  rw [haddress, hsize]
  refine (((BootProgramming.completes_download h hd hr).and_ensures
    (BootProgramming.ensures_download_started h.toOpened)).and_ensures
    BootProgramming.ensures_download_flags).bind ?_
  rintro nrc b₁ ⟨⟨⟨rfl, hd₁, _⟩, hstarted⟩, hflags⟩
  obtain ⟨hs, hmax⟩ := hstarted rfl
  have hf := hflags rfl
  have hfresh : Fresh t act version b₁ := ⟨hs, hd₁, hmax.trans hlength, hf.erased, hf.complete,
    hf.unverified, hf.active.1.trans hact, hf.active.2.trans hversion⟩
  rw [Completes.bind_setUds, Completes.bind_getRam]
  have hstart : Underway t img act version 0 1 b₁.ram.uds.transferTimeout b₁ b₁ :=
    .start hfresh (le_refl _)
  refine .pure ⟨?_, hstart.setUds (Nat.zero_le k)⟩
  show answer 0 [0x74, 0x20, BitVec.ofNat 8 (b₁.ram.programming.maxBlockLength / 256),
    BitVec.ofNat 8 b₁.ram.programming.maxBlockLength] = _
  rw [hfresh.blockLength]
  rfl

/-- Service 36 with the next block. -/
theorem completes_transferData {b₀ : Board} {len : Nat} (h : Underway t img act version n c k b₀ b)
    (htail : TailErased img) (hpos : 0 < len) (hle : len ≤ 128) (hfits : n + len ≤ slotSize)
    (hc : q.getD 1 0 = c) (hblock : q.drop 2 = block img n len) (hlen : q.length = len + 2) :
    Completes (transferData q) (fun ans b' => ans = .ok [0x76, c] ∧
      ∃ b₁, Underway t img act version (n + len) (c + 1) 0 b₁ b') b := by
  unfold transferData
  refine .ite (fun hno => absurd hno (by omega)) fun _ => ?_
  rw [hc, hblock, ← h.counter]
  refine (BootProgramming.completes_transfer h.fresh.toStarted h.fresh.blockLength htail h.receiving
    h.progress hpos hle hfits).bind ?_
  rintro nrc b₁ ⟨rfl, hr, hp, hcounter⟩
  refine .ite (fun _ => ?_) fun hno => absurd rfl hno
  rw [Completes.bind_setUds]
  have hunderway : Underway t img act version (n + len) (c + 1) b₁.ram.uds.transferTimeout b₀ b₁ :=
    ⟨h.fresh, hr, hp, by rw [hcounter, h.counter], le_refl _⟩
  refine .pure ⟨rfl,
    { b₀ with ram := { b₀.ram with uds := { b₁.ram.uds with transferTimeout := 0 } } }, ?_⟩
  rw [h.counter]
  exact hunderway.setUds (Nat.zero_le 0)

/-- Service 37 after the last block. -/
theorem completes_transferExit {b₀ : Board} (h : Underway t img act version slotSize c k b₀ b)
    (hlen : q.length = 1) :
    Completes (transferExit q) (fun ans b' => ans = .ok [0x77] ∧ Landed t img act version b') b := by
  unfold transferExit
  refine .ite (fun hno => absurd hlen hno) fun _ => completes_answer ?_
  exact BootProgramming.completes_exit_landed h.fresh h.receiving h.progress

/-- The staged header is that of the image. -/
theorem stagedHeader_eq (h : Landed t img act version b) :
    b.ram.programming.stagedHeader = headerOf img := by
  rw [← b.ram.programming.stagedHeader.ofBytes_bytes]
  exact BootImageHeader.ofBytes_congr h.staged

/-- A server accepts a shippable image once it is in the slot. -/
theorem Shippable.accepts (hship : Shippable t img act version) (h : Landed t img act version b) :
    BootProgramming.Accepts t b := by
  have hhdr := t.header_eq
  have hoff : headerOffset = 225280 := rfl
  have hss : slotSize = 229376 := rfl
  unfold BootProgramming.Accepts
  rw [stagedHeader_eq h, h.activeSlot, h.activeVersion]
  refine ⟨?_, hship.newer⟩
  have hsame : t.SamePayload (place t.base slotSize img fun _ => 0xFF) b.mem := by
    intro a hlo hhi
    obtain ⟨i, rfl⟩ : ∃ i, a = t.base + i := ⟨a - t.base, by omega⟩
    rw [place_inside (by omega)]
    exact (h.payload i (by omega)).symm
  have hsound := hship.sound
  unfold Sound at hsound ⊢
  rw [← BootImage.validate_congr hsame]
  exact hsound

/-- Routine FF01 on a shippable image in the slot. -/
theorem completes_verifyRoutine (hship : Shippable t img act version)
    (h : Landed t img act version b) (hd : b.dev.Healthy) (hr : Responsive b)
    (hlen : q.length = 4) (h1 : q.getD 1 0 = 1) (h2 : q.getD 2 0 = 0xFF) (h3 : q.getD 3 0 = 1) :
    Completes (routineControl q) (fun ans b' => ans = .ok [0x71, 1, 0xFF, 1] ∧
      Updated t img b') b := by
  have hroutine : (q.getD 2 0).toNat * 256 + (q.getD 3 0).toNat = routineVerifyCrc := by
    rw [h2, h3]
    rfl
  have hhdr := t.header_eq
  have hend := t.header_lt_journal
  have hoff : headerOffset = 225280 := rfl
  have hss : slotSize = 229376 := rfl
  have hfs : flashSectorSize = 4096 := rfl
  have hsize : BootImageHeader.size = 64 := rfl
  unfold routineControl
  refine .ite (fun hno => absurd hno (by omega)) fun _ => .ite (fun hno => absurd h1 hno) fun _ => ?_
  dsimp only
  refine .ite (fun hno => absurd (hroutine.symm.trans hno) (by decide)) fun _ => ?_
  refine .ite (fun _ => ?_) fun hno => absurd hroutine hno
  refine .ite (fun hno => absurd hlen hno) fun _ => ?_
  rw [h2, h3]
  refine completes_answer ?_
  have hheader : Ensures BootProgramming.verify (fun _ b' => Evolves (HeaderOnly t) b.dev b'.dev) b :=
    wp_mono (BootProgramming.issues_verify_header h.target) (fun _ _ h => h.1) fun _ _ => trivial
  refine ((BootProgramming.completes_verify h.toTransferred hd hr).and_ensures hheader).mono ?_
  rintro r b' ⟨⟨hyes, _⟩, hevolves⟩
  obtain ⟨rfl, hpub, _, _, hram⟩ := hyes (hship.accepts h)
  have hstaged := stagedHeader_eq h
  have hjournal := hpub.journal
  refine ⟨rfl, ⟨b'.ram.update.current, hpub.inStep.current, hpub.pending, ?_, ?_⟩, fun i hi => ?_, ?_⟩
  · have htarget : b'.ram.update.current.targetSlot = SlotId.code (some t) :=
      (congrArg BootUpdateJournal.targetSlot hjournal).trans h.targetCode
    rw [BootUpdateJournal.target, htarget]
    exact SlotId.ofCode_slot t
  · have hcached := congrArg BootUpdateJournal.cachedHeader hjournal
    exact hcached.trans (h.header.trans hstaged)
  · by_cases hlo : i < headerOffset
    · have hkeep : b'.mem (t.base + i) = b.mem (t.base + i) :=
        BootProgramming.mem_of_headerOnly hevolves (by omega)
      rw [hkeep, h.payload i hlo]
    · obtain ⟨k, rfl⟩ : ∃ k, i = headerOffset + k := ⟨i - headerOffset, by omega⟩
      have hbyte := hpub.header k (by omega)
      rw [show t.header + k = t.base + (headerOffset + k) by omega] at hbyte
      rw [hbyte]
      by_cases hk : k < BootImageHeader.size
      · rw [if_pos hk, h.staged k hk]
      · rw [if_neg hk, hship.tail (headerOffset + k) (by omega) hi]
  · have hcan := hpub.inStep.can
    unfold BootProgramming.canReset
    rw [hcan, hpub.pending, hram]
    dsimp only
    rw [h.erased, h.complete, h.inactive]
    decide

/-! ### The steps of an update -/

theorem eraseRequest_fields (t : Slot) : (eraseRequest t).headD 0 = 0x31 ∧
    (eraseRequest t).length = 12 ∧ (eraseRequest t).getD 1 0 = 1 ∧
    (eraseRequest t).getD 2 0 = 0xFF ∧ (eraseRequest t).getD 3 0 = 0 ∧
    (read32 ((eraseRequest t).drop 4)).toNat = t.base ∧
    (read32 ((eraseRequest t).drop 8)).toNat = slotSize := by
  cases t <;> decide

theorem downloadRequest_fields (t : Slot) : (downloadRequest t).headD 0 = 0x34 ∧
    (downloadRequest t).length = 11 ∧ (downloadRequest t).getD 1 0 = 0 ∧
    (downloadRequest t).getD 2 0 = 0x44 ∧ (read32 ((downloadRequest t).drop 3)).toNat = t.base ∧
    (read32 ((downloadRequest t).drop 7)).toNat = slotSize := by
  cases t <;> decide

/-- The next request of an update is answered positively. -/
theorem Due.exchange {rest : List (List Byte × List Byte)} {e : Turn}
    (hship : Shippable t img act version) (hd : Due t img act version k ((q, response) :: rest) b)
    (ha : Attended b) (he : e.Fair) : ∃ b', processRequest q (e.on b) = .done (some response) b' ∧
      Attended b' ∧ Due t img act version 0 rest b' := by
  have ha' := ha.on e
  have hpdu : BootIsoTp.maxPduLength = 256 := rfl
  generalize hwhole : (q, response) :: rest = whole at hd
  cases hd with
  | erase lens hlens hsum h hact hversion hlength =>
    obtain ⟨⟨hq, rfl⟩, rfl⟩ : (q = eraseRequest t ∧ response = [0x71, 1, 0xFF, 0]) ∧
        rest = (downloadRequest t, [0x74, 0x20, 0, 130]) ::
          (transferRequests img 0 1 lens ++ closing) := by
      simpa [updateRequests] using hwhole
    have hfields := eraseRequest_fields t
    rw [← hq] at hfields
    obtain ⟨hsid, hlen, h1, h2, h3, haddress, hsize⟩ := hfields
    have hs := completes_eraseRoutine (h e he) hlen h1 h2 h3 haddress hsize
    rw [← service_routine] at hs
    obtain ⟨b', hrun, hatt, hp, hactive, hmax⟩ := ha'.answers hs hsid (by omega) (by decide)
    exact ⟨b', hrun, hatt, .download lens hlens hsum hp (hactive.1.trans hact)
      (hactive.2.trans hversion) (hmax.trans hlength)⟩
  | download lens hlens hsum h hact hversion hlength =>
    obtain ⟨⟨rfl, rfl⟩, rfl⟩ : (q = downloadRequest t ∧ response = [0x74, 0x20, 0, 130]) ∧
        rest = transferRequests img 0 1 lens ++ closing := by
      simpa using hwhole
    obtain ⟨hsid, hlen, h1, h2, haddress, hsize⟩ := downloadRequest_fields t
    have hs : Completes (requestDownload (downloadRequest t)) (fun ans b' =>
        ans = .ok [0x74, 0x20, 0, 130] ∧ Underway t img act version 0 1 0 b' b') (e.on b) :=
      completes_requestDownload (prepared_on h e) (he.healthy b) he.responsive hlen h1 h2 haddress
        hsize hact hversion hlength
    rw [← service_download] at hs
    obtain ⟨b', hrun, hatt, hunderway⟩ := ha'.answers hs hsid (by omega) (by decide)
    exact ⟨b', hrun, hatt, .blocks 0 1 lens hlens (by omega) hunderway⟩
  | blocks n c lens hlens hsum h =>
    cases lens with
    | nil =>
      obtain ⟨⟨rfl, rfl⟩, rfl⟩ : (q = [0x37] ∧ response = [0x77]) ∧
          rest = [([0x31, 1, 0xFF, 1], [0x71, 1, 0xFF, 1])] := by
        simpa [transferRequests, closing] using hwhole
      obtain rfl : n = slotSize := by simpa using hsum
      have hs := completes_transferExit (q := [0x37]) (h.on he) rfl
      rw [← service_exit] at hs
      obtain ⟨b', hrun, hatt, hlanded⟩ := ha'.answers hs rfl (by decide) (by decide)
      exact ⟨b', hrun, hatt, .verify hlanded⟩
    | cons len lens =>
      obtain ⟨⟨rfl, rfl⟩, rfl⟩ : (q = 0x36 :: c :: block img n len ∧ response = [0x76, c]) ∧
          rest = transferRequests img (n + len) (c + 1) lens ++ closing := by
        simpa [transferRequests] using hwhole
      obtain ⟨hpos, hle⟩ := hlens len List.mem_cons_self
      rw [List.sum_cons] at hsum
      have hlen : (0x36 :: c :: block img n len).length = len + 2 := by
        rw [List.length_cons, List.length_cons, BootProgramming.length_block]
      have hs := completes_transferData (q := 0x36 :: c :: block img n len) (h.on he) hship.tail
        hpos hle (by omega) rfl rfl hlen
      rw [← service_transfer] at hs
      obtain ⟨b', hrun, hatt, b₁, hunderway⟩ := ha'.answers hs rfl (by omega) (by decide)
      exact ⟨b', hrun, hatt, .blocks (n + len) (c + 1) lens
        (fun l hl => hlens l (List.mem_cons_of_mem _ hl)) (by omega) hunderway⟩
  | verify h =>
    obtain ⟨⟨rfl, rfl⟩, rfl⟩ : (q = [0x31, 1, 0xFF, 1] ∧ response = [0x71, 1, 0xFF, 1]) ∧
        rest = [] := by
      simpa using hwhole
    have hs := completes_verifyRoutine (q := [0x31, 1, 0xFF, 1]) hship (landed_on h e)
      (he.healthy b) he.responsive rfl rfl rfl rfl
    rw [← service_routine] at hs
    obtain ⟨b', hrun, hatt, hupdated⟩ := ha'.answers hs rfl (by decide) (by decide)
    exact ⟨b', hrun, hatt, .done hupdated⟩
  | done h => cases hwhole

end BootUds
