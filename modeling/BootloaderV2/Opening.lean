import BootloaderV2.Exact
import BootloaderV2.Session

/-!
# The start of a transfer

Services 31 FF00 and 34: what they leave when they succeed, and that they do succeed on a healthy
device when the lifecycle lets an update begin.
-/

open BootConfig NorFlash CrashM TwoCopy

namespace BootIsoTp

theorem ensures_bind_transmit {α : Type} {f : Bool → BootM α} {P : α → Board → Prop}
    {b : Board} :
    Ensures (BootIsoTp.transmit >>= f) P b ↔ Ensures (f (b.hw.transmits.headD true)) P
      { b with hw := { b.hw with transmits := b.hw.transmits.tail } } := Iff.rfl

/-- Every coming response is transmitted. -/
def Responsive (b : Board) : Prop := ∀ ok ∈ b.hw.transmits, ok = true

theorem Responsive.tail {b : Board} (h : Responsive b) :
    Responsive { b with hw := { b.hw with transmits := b.hw.transmits.tail } } :=
  fun ok hok => h ok (List.mem_of_mem_tail hok)

theorem Responsive.completes_transmit {α : Type} {f : Bool → BootM α} {P : α → Board → Prop}
    {b : Board} (h : Responsive b) (hf : Completes (f true) P
      { b with hw := { b.hw with transmits := b.hw.transmits.tail } }) :
    Completes (transmit >>= f) P b := by
  have hhead : b.hw.transmits.headD true = true := by
    cases hq : b.hw.transmits with
    | nil => rfl
    | cons ok rest => exact h ok (by rw [hq]; exact List.mem_cons_self)
  show Completes (f (b.hw.transmits.headD true)) P _
  rw [hhead]
  exact hf

end BootIsoTp

namespace BootUpdate

theorem InStep.congr {b b' : Board} (h : InStep b) (hupdate : b'.ram.update = b.ram.update)
    (hmem : ∀ a, journalCopy0Address ≤ a → a < metadataSlotACopy0Address → b'.mem a = b.mem a) :
    InStep b' := by
  refine ⟨?_, ?_⟩
  · rw [hupdate]
    exact h.can
  · rw [hupdate]
    exact h.current.congr hmem

end BootUpdate

theorem Slot.header_lt_journal (t : Slot) :
    t.base + slotSize ≤ journalCopy0Address ∧ t.header + flashSectorSize = t.base + slotSize := by
  cases t <;> decide

theorem Slot.header_aligned (t : Slot) :
    t.base % flashSectorSize = 0 ∧ t.header % flashSectorSize = 0 := by
  cases t <;> decide

namespace BootProgramming

open BootUpdate (InStep JournalOnly)

variable {b b' : Board} {t : Slot} {address size : Nat}

/-! ## What success leaves -/

/-- The slot is erased but for the marker in place of the header. -/
structure Emptied (t : Slot) (m : Nat → Byte) : Prop where
  marker : ∀ i, i < flashPhraseSize → m (t.header + i) = 0
  erased : ∀ a, t.Contains a → a < t.header ∨ t.header + flashPhraseSize ≤ a → m a = 0xFF

theorem Emptied.journalOnly {m m' : Nat → Byte} (h : Emptied t m) (hm : JournalOnly m m') :
    Emptied t m' := by
  have hend := t.header_lt_journal
  have hphrase : flashPhraseSize = 8 := rfl
  have hsector : flashSectorSize = 4096 := rfl
  refine ⟨fun i hi => ?_, fun a ha ha' => ?_⟩
  · rw [hm _ (.inl (by omega))]
    exact h.marker i hi
  · rw [hm a (.inl (by unfold Slot.Contains at ha; omega))]
    exact h.erased a ha ha'

/-- The loop erases its sectors and skips the one of the header. -/
theorem ensures_eraseLoop_exact {header current n : Nat}
    (haligned : current % flashSectorSize = header % flashSectorSize) :
    Ensures (eraseLoop header current n) (fun r b' => r = 0 → b'.ram = b.ram ∧
      ∀ a, b'.mem a = if current ≤ a ∧ a < current + flashSectorSize * n ∧
        (a < header ∨ header + flashSectorSize ≤ a) then 0xFF else b.mem a) b := by
  induction n generalizing b current with
  | zero => exact .pure fun _ => ⟨rfl, fun a => (if_neg (by omega)).symm⟩
  | succ n ih =>
    have hsector : flashSectorSize = 4096 := rfl
    rw [hsector] at haligned ih ⊢
    unfold eraseLoop
    refine .ite (fun hskip => ?_) fun hne => ?_
    · refine (@ih _ (current + flashSectorSize) (by omega)).mono fun r b' h hr => ?_
      obtain ⟨hram, hmem⟩ := h hr
      refine ⟨hram, fun a => ?_⟩
      rw [hmem a]
      -- the sector left out is the header's
      by_cases ha : current + flashSectorSize ≤ a
      · exact if_congr (by omega) rfl rfl
      · rw [if_neg (by omega), if_neg (by omega)]
    · rw [BootIsoTp.ensures_bind_transmit]
      refine .ite (fun _ => .pure fun h => absurd h (by decide)) fun _ => ?_
      refine BootFlash.ensures_erase.bind ?_
      rintro ok b₁ ⟨d, rfl, hd⟩
      refine .ite (fun _ => .skip fun _ _ => .pure fun h => absurd h (by decide)) fun hok => ?_
      have hmem₁ : d.mem = place current flashSectorSize (fun _ => 0xFF) b.mem :=
        hd (by simpa using hok)
      refine (@ih _ (current + flashSectorSize) (by omega)).mono fun r b' h hr => ?_
      obtain ⟨hram, hmem⟩ := h hr
      refine ⟨hram, fun a => ?_⟩
      rw [hmem a, Board.setDev_mem, hmem₁]
      by_cases ha : current ≤ a ∧ a < current + flashSectorSize
      · rw [if_neg (by omega), if_pos (by omega)]
        unfold place
        rw [if_pos ha]
      · rw [place_outside (by omega)]
        exact if_congr (by omega) rfl rfl

/-- What a successful `BootProgramming_Erase` leaves. -/
structure Opened (t : Slot) (b : Board) : Prop where
  configured : BootFlash.Configured b.ram.flash b.ram.programming.activeSlot t
  access : accessCheck b.ram = 0
  inStep : InStep b
  emptied : Emptied t b.mem
  target : b.ram.programming.targetSlot = some t
  address : b.ram.programming.targetAddress = t.base
  size : b.ram.programming.targetSize = slotSize
  received : b.ram.programming.receivedSize = 0
  programmed : b.ram.programming.programmedSize = 0
  buffered : b.ram.programming.bufferedSize = 0
  counter : b.ram.programming.expectedBlockSequenceCounter = 1
  expected : b.ram.update.current.expectedSize.toNat = slotSize
  committed : b.ram.update.current.committedSize = 0
  activeCode : b.ram.update.current.activeSlot = SlotId.code b.ram.programming.activeSlot
  targetCode : b.ram.update.current.targetSlot = SlotId.code (some t)

/-- A target that has been erased and not yet written. -/
structure Prepared (t : Slot) (b : Board) : Prop extends Opened t b where
  erased : b.ram.programming.eraseComplete = true
  inactive : b.ram.programming.downloadActive = false
  incomplete : b.ram.programming.transferComplete = false
  state : b.ram.update.current.state = BootUpdateState.downloadReady.code

theorem Emptied.of_loop {m m' : Nat → Byte}
    (hmarker : ∀ i, i < flashPhraseSize → m (t.header + i) = 0)
    (hsector : ∀ a, t.header + flashPhraseSize ≤ a → a < t.header + flashSectorSize → m a = 0xFF)
    (h : ∀ a, m' a = if t.base ≤ a ∧ a < t.base + flashSectorSize * (slotSize / flashSectorSize) ∧
      (a < t.header ∨ t.header + flashSectorSize ≤ a) then 0xFF else m a) : Emptied t m' := by
  have hend := t.header_lt_journal
  have hhdr := t.header_eq
  have hphrase : flashPhraseSize = 8 := rfl
  have hfs : flashSectorSize = 4096 := rfl
  have hss : slotSize = 229376 := rfl
  rw [show flashSectorSize * (slotSize / flashSectorSize) = slotSize from rfl] at h
  refine ⟨fun i hi => ?_, fun a ha ha' => ?_⟩
  · rw [h, if_neg (by omega)]
    exact hmarker i hi
  · unfold Slot.Contains at ha
    rw [h]
    by_cases hin : a < t.header
    · exact if_pos (by omega)
    · rw [if_neg (by omega)]
      exact hsector a (by omega) (by omega)

theorem accessCheck_eq_zero {ram : Ram} : accessCheck ram = 0 ↔
    ram.programming.sessionActive = true ∧ ram.programming.securityUnlocked = true ∧
      BootUpdate.canContinue ram.update = true := by
  unfold accessCheck
  cases ram.programming.sessionActive <;> cases ram.programming.securityUnlocked <;>
    cases BootUpdate.canContinue ram.update <;> decide

/-- What a successful erasure of `t` adds to the context and the journal. -/
structure Cleared (t : Slot) (active : SlotId) (b b' : Board) : Prop where
  inStep : InStep b'
  emptied : Emptied t b'.mem
  flash : b'.ram.flash = b.ram.flash
  context : b'.ram.programming = { b.ram.programming with
    targetAddress := t.base, targetSize := slotSize, eraseComplete := true }
  state : b'.ram.update.current.state = BootUpdateState.downloadReady.code
  expected : b'.ram.update.current.expectedSize = BitVec.ofNat 32 slotSize
  committed : b'.ram.update.current.committedSize = 0
  activeCode : b'.ram.update.current.activeSlot = SlotId.code active
  targetCode : b'.ram.update.current.targetSlot = SlotId.code (some t)

/-- `BootProgramming_Erase` from `BootUpdate_Begin` on. -/
theorem ensures_eraseTarget_cleared {active : SlotId} :
    Ensures (eraseTarget active (some t) t.base slotSize) (fun r b' => r = 0 → Cleared t active b b')
      b := by
  have hend := t.header_lt_journal
  have hhdr := t.header_eq
  have hfs : flashSectorSize = 4096 := rfl
  have hps : flashPhraseSize = 8 := rfl
  have hfail : ∀ {c : Board},
      Ensures (pure (0x72 : Byte)) (fun r b' => r = 0 → Cleared t active b b') c :=
    .pure fun h => absurd h (by decide)
  unfold eraseTarget
  dsimp only
  rw [show BootSlot.getHeaderAddress (some t) = t.header from rfl]
  refine BootUpdate.ensures_beginUpdate.bind fun ok b₁ h₁ => .ite (fun _ => hfail) fun hok₁ => ?_
  obtain ⟨-, -, hboard₁, n₁, hcur₁⟩ := h₁ (by simpa using hok₁)
  refine BootUpdate.ensures_setState.bind fun ok b₂ h₂ => .ite (fun _ => hfail) fun hok₂ => ?_
  obtain ⟨-, hl₂⟩ := h₂ (by simpa using hok₂)
  refine BootFlash.ensures_erase.bind ?_
  rintro ok b' ⟨d₃, rfl, hd₃⟩
  refine .ite (fun _ => .skip fun _ _ => hfail) fun hok₃ => ?_
  have hmem₃ : d₃.mem = place t.header flashSectorSize (fun _ => 0xFF) b₂.mem :=
    hd₃ (by simpa using hok₃)
  refine BootFlash.ensures_program.bind ?_
  rintro ok b' ⟨d₄, rfl, hd₄⟩
  refine .ite (fun _ => .skip fun _ _ => hfail) fun hok₄ => ?_
  have hmem₄ : d₄.mem = place t.header flashPhraseSize (fun _ => 0) d₃.mem :=
    hd₄ (by simpa using hok₄)
  refine (ensures_eraseLoop_exact ?_).bind fun r b₅ h₅ => ?_
  · rw [t.header_aligned.1, t.header_aligned.2]
  refine .ite (fun hr => .pure fun h => absurd h hr) fun hr => ?_
  obtain ⟨hram₅, hmem₅⟩ := h₅ (not_not.1 hr)
  refine BootUpdate.ensures_setState.bind fun ok b₆ h₆ => .ite (fun _ => hfail) fun hok₆ => ?_
  obtain ⟨-, hl₆⟩ := h₆ (by simpa using hok₆)
  rw [Ensures.bind_setProgramming]
  have hempty : Emptied t b₅.mem := by
    refine .of_loop (fun i hi => ?_) (fun a ha ha' => ?_) hmem₅
    · rw [Board.setDev_mem, hmem₄]
      exact place_inside hi
    · rw [Board.setDev_mem, hmem₄, place_outside (.inr ha), hmem₃]
      unfold place
      exact if_pos (by omega)
  have hprog₁ : b₁.ram.programming = b.ram.programming := by rw [hboard₁]; rfl
  have hflash₁ : b₁.ram.flash = b.ram.flash := by rw [hboard₁]; rfl
  have hprog₆ : b₆.ram.programming = b.ram.programming := by
    rw [hl₆.ram]
    show b₅.ram.programming = _
    rw [hram₅]
    show b₂.ram.programming = _
    rw [hl₂.ram]
    exact hprog₁
  have hflash₆ : b₆.ram.flash = b.ram.flash := by
    rw [hl₆.ram]
    show b₅.ram.flash = _
    rw [hram₅]
    show b₂.ram.flash = _
    rw [hl₂.ram]
    exact hflash₁
  obtain ⟨j₂, -, hcur₂⟩ := hl₂.record
  obtain ⟨j₆, -, hcur₆⟩ := hl₆.record
  have hcur₅ : b₅.ram.update.current = b₂.ram.update.current := by rw [hram₅]; rfl
  refine .pure fun _ => ⟨⟨hl₆.inStep.can, hl₆.inStep.current⟩, hempty.journalOnly hl₆.only, hflash₆,
    by rw [hprog₆], ?_, ?_, ?_, ?_, ?_⟩
  · rw [hcur₆]; rfl
  · rw [hcur₆, hcur₅, hcur₂, hcur₁]; rfl
  · rw [hcur₆, hcur₅, hcur₂, hcur₁]; rfl
  · rw [hcur₆, hcur₅, hcur₂, hcur₁]; rfl
  · rw [hcur₆, hcur₅, hcur₂, hcur₁]; rfl

/-- `BootProgramming_Erase` that succeeds has prepared its target. -/
theorem ensures_erase_prepared : Ensures (erase address size) (fun r b' => r = 0 →
    ∃ t : Slot, address = t.base ∧ Prepared t b' ∧ b'.ram.programming.maxBlockLength =
      b.ram.programming.maxBlockLength) b := by
  unfold erase
  rw [Ensures.bind_getRam]
  dsimp only
  refine .ite (fun h => .pure fun h0 => absurd h0 h) fun hacc => ?_
  refine .ite (fun _ => .pure fun h => absurd h (by decide)) fun _ => ?_
  refine .ite (fun _ => .pure fun h => absurd h (by decide)) fun hexact => ?_
  refine .ite (fun _ => .pure fun h => absurd h (by decide)) fun _ => ?_
  obtain ⟨t, ht, hne, rfl, rfl⟩ := exists_target_of_exact (by simpa using hexact)
  rw [ht]
  unfold abort
  rw [Ensures.bind_setProgramming]
  refine BootFlash.ensures_configureSlots.bind fun ok b₁ h₁ => ?_
  refine .ite (fun _ => .pure fun h => absurd h (by decide)) fun hok => ?_
  obtain ⟨hready, -, rfl⟩ := h₁ (by simpa using hok)
  rw [BootIsoTp.ensures_bind_transmit]
  refine .ite (fun _ => .pure fun h => absurd h (by decide)) fun _ => ?_
  refine ensures_eraseTarget_cleared.mono fun r b' h hr => ⟨t, rfl, ?_, ?_⟩
  · have hc := h hr
    have hsession := accessCheck_eq_zero.1 (not_not.1 hacc)
    have hcontext : b'.ram.programming = { aborted b.ram.programming with
        targetAddress := t.base, targetSize := slotSize, eraseComplete := true } := hc.context
    refine ⟨⟨?_, ?_, hc.inStep, hc.emptied, ?_, ?_, ?_, ?_, ?_, ?_, ?_, ?_, hc.committed, ?_,
      hc.targetCode⟩, ?_, ?_, ?_, hc.state⟩
    · rw [hc.flash, hcontext]
      exact BootFlash.configured_spec hready hne
    · rw [accessCheck_eq_zero, hcontext]
      exact ⟨hsession.1, hsession.2.1, hc.inStep.can⟩
    · rw [hcontext]
      exact ht
    · rw [hcontext]
    · rw [hcontext]
    · rw [hcontext]
      rfl
    · rw [hcontext]
      rfl
    · rw [hcontext]
      rfl
    · rw [hcontext]
      rfl
    · rw [hc.expected]
      rfl
    · rw [hc.activeCode, hcontext]
      rfl
    · rw [hcontext]
    · rw [hcontext]
      rfl
    · rw [hcontext]
      rfl
  · rw [(h hr).context]
    rfl

/-- A transfer that has been started and has received nothing. -/
structure Started (t : Slot) (b : Board) : Prop extends Opened t b where
  active : b.ram.programming.downloadActive = true
  staged : b.ram.programming.stagedHeader = erasedHeader
  state : b.ram.update.current.state = BootUpdateState.programming.code

theorem ensures_download_started (h : Opened t b) :
    Ensures (download address size) (fun r b' => r = 0 → Started t b' ∧
      b'.ram.programming.maxBlockLength = b.ram.programming.maxBlockLength) b := by
  unfold download
  rw [Ensures.bind_getRam]
  dsimp only
  refine .ite (fun h => .pure fun h0 => absurd h0 h) fun hacc => ?_
  refine .ite (fun _ => .pure fun h => absurd h (by decide)) fun _ => ?_
  refine .ite (fun _ => .pure fun h => absurd h (by decide)) fun _ => ?_
  refine BootUpdate.ensures_setState.bind fun ok b₁ h₁ => ?_
  refine .ite (fun _ => .pure fun h => absurd h (by decide)) fun hok => ?_
  obtain ⟨-, hl⟩ := h₁ (by simpa using hok)
  rw [Ensures.bind_setProgramming]
  obtain ⟨j, -, hcur⟩ := hl.record
  have hprog : b₁.ram.programming = b.ram.programming := by rw [hl.ram]
  have hflash : b₁.ram.flash = b.ram.flash := by rw [hl.ram]
  have hsession := accessCheck_eq_zero.1 h.access
  refine .pure fun _ => ⟨⟨⟨?_, ?_, ⟨hl.inStep.can, hl.inStep.current⟩,
    h.emptied.journalOnly hl.only, ?_, ?_, ?_, ?_, ?_, ?_, ?_, ?_, ?_, ?_, ?_⟩, rfl, rfl, ?_⟩, ?_⟩
  · dsimp only
    rw [hflash, hprog]
    exact h.configured
  · rw [accessCheck_eq_zero]
    dsimp only
    rw [hprog]
    exact ⟨hsession.1, hsession.2.1, hl.inStep.can⟩
  · dsimp only
    rw [hprog]
    exact h.target
  · dsimp only
    rw [hprog]
    exact h.address
  · dsimp only
    rw [hprog]
    exact h.size
  · dsimp only
    rw [hprog]
    exact h.received
  · dsimp only
    rw [hprog]
    exact h.programmed
  · dsimp only
    rw [hprog]
    exact h.buffered
  · dsimp only
    rw [hprog]
    exact h.counter
  · dsimp only
    rw [hcur]
    exact h.expected
  · dsimp only
    rw [hcur]
    exact h.committed
  · dsimp only
    rw [hcur, hprog]
    exact h.activeCode
  · dsimp only
    rw [hcur]
    exact h.targetCode
  · dsimp only
    rw [hcur]
    rfl
  · dsimp only
    rw [hprog]

/-! ## What success takes -/

open BootIsoTp (Responsive)

theorem completes_eraseLoop {active : SlotId} {current n : Nat}
    (hcfg : BootFlash.Configured b.ram.flash active t) (hd : b.dev.Healthy) (hr : Responsive b)
    (haligned : current % flashSectorSize = 0) (hlo : t.base ≤ current)
    (hhi : current + flashSectorSize * n ≤ t.base + slotSize) :
    Completes (eraseLoop t.header current n) (fun r b' => r = 0 ∧ b'.dev.Healthy ∧ Responsive b')
      b := by
  induction n generalizing b current with
  | zero => exact .pure ⟨rfl, hd, hr⟩
  | succ n ih =>
    rw [Nat.mul_succ] at hhi
    have hnext : (current + flashSectorSize) % flashSectorSize = 0 := by
      rw [Nat.add_mod_right]
      exact haligned
    unfold eraseLoop
    refine .ite (fun _ => ih hcfg hd hr hnext (by omega) (by omega)) fun _ => ?_
    apply hr.completes_transmit
    refine .ite (fun hno => absurd hno (by decide)) fun _ => ?_
    have ht := hr.tail
    generalize hb₁ : ({ b with hw := { b.hw with transmits := b.hw.transmits.tail } } : Board) = b₁
      at ht ⊢
    obtain ⟨hcfg₁, hd₁⟩ : BootFlash.Configured b₁.ram.flash active t ∧ b₁.dev.Healthy := by
      rw [← hb₁]
      exact ⟨hcfg, hd⟩
    refine (BootFlash.completes_erase hcfg₁ hd₁ hlo (by omega) haligned).bind ?_
    rintro ok b' ⟨rfl, d, rfl, hdev, -⟩
    refine .ite (fun hno => absurd hno (by decide)) fun _ => ?_
    exact ih hcfg₁ hdev ht hnext (by omega) (by omega)

theorem completes_beginUpdate {active : SlotId} (h : InStep b)
    (hready : b.ram.flash.ready = true) (hd : b.dev.Healthy) (hne : active ≠ some t)
    (hallowed : BootUpdate.beginAllowed b.ram.update active (some t) slotSize = true) :
    Completes (BootUpdate.beginUpdate active (some t) slotSize) (fun ok b' => ok = true ∧
      b'.dev.Healthy ∧ b'.hw = b.hw ∧ b'.ram.flash = b.ram.flash) b := by
  unfold BootUpdate.beginUpdate
  rw [Completes.bind_getRam]
  refine .ite (fun hno => absurd hno (by simp [hallowed])) fun _ => ?_
  refine (BootUpdate.completes_save h hready hd
    (Serving.wellFormed_beginRecord b.ram.update.current hne)).bind ?_
  rintro ok b' ⟨rfl, hdev, hl⟩
  refine .ite (fun hno => absurd hno (by decide)) fun _ => ?_
  rw [Completes.bind_setUpdate]
  refine .pure ⟨rfl, hdev, ?_, ?_⟩
  · show b'.hw = _
    rw [hl.board]
    rfl
  · show b'.ram.flash = _
    rw [hl.ram]

/-- The states of a transaction that ask for no header follow one another. -/
theorem completes_next {p q : BootUpdateState} (h : InStep b) (hready : b.ram.flash.ready = true)
    (hd : b.dev.Healthy) (hst : b.ram.update.current.state = p.code)
    (hallowed : BootUpdate.transitionAllowed p.code q.code = true) (hp : p ≠ .idle ∧ p ≠ .aborted)
    (hheader : q ∈ [.transferComplete, .verifying, .verified, .pendingActivation] →
      p ∈ [.transferComplete, .verifying, .verified, .pendingActivation]) :
    Completes (BootUpdate.setState q) (fun ok b' => ok = true ∧ b'.dev.Healthy ∧
      BootUpdate.Logged b { b.ram.update.current with state := q.code } b') b := by
  have hwf := h.current.wellFormed
  exact BootUpdate.completes_setState h hready hd hst hallowed
    (hwf.withState hst _ hwf.lastResult (fun _ _ => hp) hheader)

theorem completes_eraseTarget {active : SlotId} (h : InStep b) (hd : b.dev.Healthy)
    (hr : Responsive b) (hcfg : BootFlash.Configured b.ram.flash active t)
    (hallowed : BootUpdate.beginAllowed b.ram.update active (some t) slotSize = true) :
    Completes (eraseTarget active (some t) t.base slotSize) (fun r b' => r = 0 ∧ b'.dev.Healthy ∧
      Responsive b') b := by
  have hend := t.header_lt_journal
  have hhdr := t.header_eq
  have hfs : flashSectorSize = 4096 := rfl
  have hps : flashPhraseSize = 8 := rfl
  have hss : slotSize = 229376 := rfl
  unfold eraseTarget
  dsimp only
  rw [show BootSlot.getHeaderAddress (some t) = t.header from rfl]
  refine ((completes_beginUpdate h hcfg.ready hd hcfg.apart hallowed).and_ensures
    BootUpdate.ensures_beginUpdate).bind ?_
  rintro ok b₁ ⟨⟨rfl, hd₁, hhw₁, hflash₁⟩, he₁⟩
  refine .ite (fun hno => absurd hno (by decide)) fun _ => ?_
  obtain ⟨hin₁, -, -, n₁, hcur₁⟩ := he₁ rfl
  have hcfg₁ : BootFlash.Configured b₁.ram.flash active t := by rwa [hflash₁]
  refine (completes_next (p := .preparing) (q := .erasing) hin₁ hcfg₁.ready hd₁ ?_ (by decide)
    (by decide) (by decide)).bind ?_
  · rw [hcur₁]
    rfl
  rintro ok b₂ ⟨rfl, hd₂, hl₂⟩
  refine .ite (fun hno => absurd hno (by decide)) fun _ => ?_
  obtain ⟨j₂, -, hcur₂⟩ := hl₂.record
  have hcfg₂ : BootFlash.Configured b₂.ram.flash active t := by
    rw [hl₂.ram]
    exact hcfg₁
  have hr₂ : Responsive b₂ := by
    unfold Responsive
    rw [congrArg Board.hw hl₂.board, show (BootUpdate.withUpdate b₁ b₂.dev _).hw = b₁.hw from rfl,
      hhw₁]
    exact hr
  -- the header sector is erased and marked
  refine (BootFlash.completes_erase hcfg₂ hd₂ (by omega) (by omega) t.header_aligned.2).bind ?_
  rintro ok b₃ ⟨rfl, d₃, rfl, hd₃, hmem₃⟩
  refine .ite (fun hno => absurd hno (by decide)) fun _ => ?_
  refine (BootFlash.completes_program (b := b₂.setDev d₃)
    hcfg₂ hd₃ (by decide) (by omega) (by omega) ?_ rfl ?_).bind ?_
  · have := t.header_aligned.2
    rw [hfs] at this
    rw [hps]
    omega
  · intro i hi
    show d₃.mem _ = _
    rw [hmem₃]
    exact place_inside (by omega)
  rintro ok b₄ ⟨rfl, d₄, rfl, hd₄, hmem₄⟩
  refine .ite (fun hno => absurd hno (by decide)) fun _ => ?_
  have hloop : Completes (eraseLoop t.header t.base (slotSize / flashSectorSize)) _
      ((b₂.setDev d₃).setDev d₄) :=
    (completes_eraseLoop (b := (b₂.setDev d₃).setDev d₄) hcfg₂ hd₄ hr₂ t.header_aligned.1
      (le_refl _) (le_of_eq rfl)).and_ensures
        (ensures_eraseLoop_exact (by rw [t.header_aligned.1, t.header_aligned.2]))
  refine hloop.bind ?_
  rintro r b₅ ⟨⟨rfl, hd₅, hr₅⟩, he₅⟩
  refine .ite (fun hno => absurd rfl hno) fun _ => ?_
  obtain ⟨hram₅, hmem₅⟩ := he₅ rfl
  have hupdate₅ : b₅.ram.update = b₂.ram.update := by
    rw [hram₅]
    rfl
  have hin₅ : InStep b₅ := by
    refine hl₂.inStep.congr hupdate₅ fun a ha ha' => ?_
    rw [hmem₅, if_neg (by rw [show flashSectorSize * (slotSize / flashSectorSize) = slotSize from rfl]
                          omega)]
    show d₄.mem a = _
    rw [hmem₄, place_outside (by omega)]
    show d₃.mem a = _
    rw [hmem₃, place_outside (by omega)]
  have hready₅ : b₅.ram.flash.ready = true := by
    rw [hram₅]
    exact hcfg₂.ready
  refine (completes_next (p := .erasing) (q := .downloadReady) hin₅ hready₅ hd₅ ?_ (by decide)
    (by decide) (by decide)).bind ?_
  · rw [hupdate₅, hcur₂]
    rfl
  rintro ok b₆ ⟨rfl, hd₆, hl₆⟩
  refine .ite (fun hno => absurd hno (by decide)) fun _ => ?_
  rw [Completes.bind_setProgramming]
  refine .pure ⟨rfl, hd₆, ?_⟩
  show ∀ ok ∈ b₆.hw.transmits, ok = true
  rw [show b₆.hw = b₅.hw by rw [hl₆.board]; rfl]
  exact hr₅

/-- The board lets an update of `t` begin. -/
structure Erasable (t : Slot) (b : Board) : Prop where
  inStep : InStep b
  healthy : b.dev.Healthy
  responsive : Responsive b
  ready : b.ram.flash.ready = true
  session : b.ram.programming.sessionActive = true
  unlocked : b.ram.programming.securityUnlocked = true
  idle : b.ram.programming.downloadActive = false
  target : b.ram.programming.targetSlot = some t
  apart : b.ram.programming.activeSlot ≠ some t
  lifecycle : BootLifecycle.canStartUpdate b.ram.lifecycle b.ram.programming.activeSlot (some t) =
    true
  allowed : BootUpdate.beginAllowed b.ram.update b.ram.programming.activeSlot (some t) slotSize = true

/-- The whole target is an exact request. -/
theorem exactTarget_self {c : Context} (ht : c.targetSlot = some t) (hne : c.activeSlot ≠ some t) :
    exactTarget c t.base slotSize = true := by
  have hother : (some t != c.activeSlot) = true := by
    simp [Ne.symm hne]
  have hrange : BootSlot.containsRange (some t) t.base slotSize = true :=
    BootFlash.containsRange_iff.2 ⟨by decide, le_refl _, le_refl _⟩
  unfold exactTarget
  rw [ht, hother, hrange]
  cases t <;> rfl

/-- Service 31 FF00 for the whole target. -/
theorem completes_erase (h : Erasable t b) : Completes (erase t.base slotSize) (fun r b' =>
    r = 0 ∧ b'.dev.Healthy ∧ Responsive b') b := by
  have hexact := exactTarget_self h.target h.apart
  unfold erase
  rw [Completes.bind_getRam]
  dsimp only
  rw [h.target]
  refine .ite (fun hno => absurd ?_ hno) fun _ => ?_
  · exact accessCheck_eq_zero.2 ⟨h.session, h.unlocked, h.inStep.can⟩
  refine .ite (fun hno => absurd hno (by simp [h.idle])) fun _ => ?_
  refine .ite (fun hno => absurd hno (by simp [hexact])) fun _ => ?_
  refine .ite (fun hno => absurd hno (by simp [h.lifecycle])) fun _ => ?_
  unfold abort
  rw [Completes.bind_setProgramming]
  generalize hb₁ : ({ b with ram := { b.ram with programming := aborted b.ram.programming } } :
    Board) = b₁
  obtain ⟨hdev₁, hready₁, hr₁, hupdate₁⟩ : b₁.dev = b.dev ∧ b₁.ram.flash.ready = true ∧
      Responsive b₁ ∧ b₁.ram.update = b.ram.update := by
    rw [← hb₁]
    exact ⟨rfl, h.ready, h.responsive, rfl⟩
  refine (Completes.of_runs (BootFlash.runs_configureSlots (R := fun _ _ => True) hready₁ h.apart)
    (by rw [hdev₁]; exact h.healthy)).bind ?_
  rintro ok b₂ ⟨hd₂, rfl, rfl⟩
  refine .ite (fun hno => absurd hno (by decide)) fun _ => ?_
  apply Responsive.completes_transmit
  · exact hr₁
  refine completes_eraseTarget ⟨?_, ?_⟩ hd₂ ?_ (BootFlash.configured_spec hready₁ h.apart) ?_
  · show BootUpdate.canContinue b₁.ram.update = true
    rw [hupdate₁]
    exact h.inStep.can
  · show BootJournal.Current b₁.dev.mem b₁.ram.update.current
    rw [hdev₁, hupdate₁]
    exact h.inStep.current
  · exact hr₁.tail
  · show BootUpdate.beginAllowed b₁.ram.update _ _ _ = true
    rw [hupdate₁]
    exact h.allowed

/-- Service 34 behind it. -/
theorem completes_download (h : Prepared t b) (hd : b.dev.Healthy) (hr : Responsive b) :
    Completes (download t.base slotSize) (fun r b' => r = 0 ∧ b'.dev.Healthy ∧ Responsive b') b := by
  have hexact := exactTarget_self h.target h.configured.apart
  unfold download
  rw [Completes.bind_getRam]
  dsimp only
  refine .ite (fun hno => absurd h.access hno) fun _ => ?_
  refine .ite (fun hno => absurd hno (by simp [hexact])) fun _ => ?_
  refine .ite (fun hno => absurd hno ?_) fun _ => ?_
  · rw [h.erased, h.inactive, h.incomplete, h.received, h.address, h.size]
    simp
  refine (completes_next (p := .downloadReady) (q := .programming) h.inStep h.configured.ready hd
    h.state (by decide) (by decide) (by decide)).bind ?_
  rintro ok b' ⟨rfl, hd', hl⟩
  refine .ite (fun hno => absurd hno (by decide)) fun _ => ?_
  rw [Completes.bind_setProgramming]
  refine .pure ⟨rfl, hd', ?_⟩
  show ∀ ok ∈ b'.hw.transmits, ok = true
  rw [show b'.hw = b.hw by rw [hl.board]; rfl]
  exact hr

end BootProgramming
