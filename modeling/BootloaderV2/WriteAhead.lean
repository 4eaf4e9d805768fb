import BootloaderV2.Session
import BootloaderV2.Upkeep

/-!
# Write-ahead discipline

Every command in a slot is issued while the journal on flash names the slot as the target of a
transaction that has come to the matching state.  `InStep` relates the flags of the programming
context to the journal; each service keeps it, whatever commands, commits and responses fail.
-/

open BootConfig NorFlash CrashM TwoCopy

open BootJournal (Current Keeping)

/-- While a command in a slot is issued, the current journal record names that slot as its target,
    the other slot or none as the active one, and a state that `P` allows. -/
def WriteAhead (P : Word → Prop) : CommandRel := fun c m _ =>
  ∀ s, c.Touches s → ∃ j, Current m j ∧ j.targetSlot = s.code ∧
    (j.activeSlot = s.other.code ∨ j.activeSlot = SlotId.unknownCode) ∧ P j.state

namespace WriteAhead

variable {P P' : Word → Prop} {c : Command} {m m' : Nat → Byte}

theorem of_untouched (h : ∀ s, ¬ c.Touches s) : WriteAhead P c m m' :=
  fun s hs => absurd hs (h s)

theorem of_keeping (h : Keeping c m m') : WriteAhead P c m m' := of_untouched h.1.not_touches

theorem of_housekeeping (h : Housekeeping c m m') : WriteAhead P c m m' := of_untouched h.not_touches

theorem mono (hP : ∀ st, P st → P' st) (h : WriteAhead P c m m') : WriteAhead P' c m m' := by
  intro s hs
  obtain ⟨j, hj, ht, ha, hst⟩ := h s hs
  exact ⟨j, hj, ht, ha, hP _ hst⟩

end WriteAhead

/-- A write outside the journal sectors leaves the current record. -/
theorem BootJournal.Current.of_slot {t : Slot} {address size : Nat} {m m' : Nat → Byte}
    {j : BootUpdateJournal} (h : Current m j) (hm : SameOutside address size m m')
    (hhi : address + size ≤ t.base + slotSize) : Current m' j := by
  have ht : t.base + slotSize ≤ journalCopy0Address := by cases t <;> decide
  exact h.congr fun a ha _ => hm a (by omega)

/-- The other slot, or none, is active where `t` is the target. -/
theorem BootJournal.WellFormed.active_of_target {j : BootUpdateJournal} {t : Slot}
    (h : BootJournal.WellFormed j) (ht : j.targetSlot = t.code) :
    j.activeSlot = t.other.code ∨ j.activeSlot = SlotId.unknownCode := by
  obtain ⟨s, hs⟩ := h.activeSlot
  cases s with
  | none => exact .inr hs
  | some s =>
    left
    rw [hs]
    have hne : s ≠ t := by
      rintro rfl
      exact h.target_ne_active (ht.trans hs.symm)
    rw [Slot.eq_other_of_ne hne]
    rfl

/-- A command in the target slot of the current record. -/
theorem WriteAhead.of_target {P : Word → Prop} {t : Slot} {c : Command} {m m' : Nat → Byte}
    {j : BootUpdateJournal} (hj : Current m j) (ht : j.targetSlot = t.code) (hP : P j.state)
    (hlo : t.base ≤ c.address) (hhi : c.address + c.size ≤ t.base + slotSize) :
    WriteAhead P c m m' := by
  intro s hs
  have hst : s = t := by
    have hsize : slotSize = 0x38000 := rfl
    have ha : Slot.a.base = 0x8000 := rfl
    have hb : Slot.b.base = 0x40000 := rfl
    unfold Command.Touches at hs
    cases s <;> cases t <;> first | rfl | (exfalso; omega)
  subst hst
  exact ⟨j, hj, ht, hj.wellFormed.active_of_target ht, hP⟩

namespace BootProgramming

/-- The record names the slots of the context. -/
def Names (j : BootUpdateJournal) (c : Context) : Prop :=
  j.activeSlot = SlotId.code c.activeSlot ∧ j.targetSlot = SlotId.code c.targetSlot

/-- A transfer has got somewhere. -/
def flagged (c : Context) : Bool :=
  c.downloadActive || c.eraseComplete || c.transferComplete || c.imageVerified

/-- The flags of the context agree with the journal, in RAM and on flash, unless its storage has
    failed. -/
structure InStep (b : Board) : Prop where
  stored : flagged b.ram.programming = true →
    b.ram.update.journalValid = true ∧ ∃ j, Current b.mem j
  current : BootUpdate.canContinue b.ram.update = true → flagged b.ram.programming = true →
    Current b.mem b.ram.update.current
  downloading : BootUpdate.canContinue b.ram.update = true →
    b.ram.programming.downloadActive = true →
    b.ram.update.current.state = BootUpdateState.programming.code ∧
      Names b.ram.update.current b.ram.programming
  erased : BootUpdate.canContinue b.ram.update = true → b.ram.programming.eraseComplete = true →
    b.ram.programming.downloadActive = false → b.ram.programming.transferComplete = false →
    b.ram.update.current.state = BootUpdateState.downloadReady.code ∧
      Names b.ram.update.current b.ram.programming
  transferred : BootUpdate.canContinue b.ram.update = true →
    b.ram.programming.transferComplete = true →
    b.ram.update.current.state = BootUpdateState.transferComplete.code →
    Names b.ram.update.current b.ram.programming
  verified : BootUpdate.canContinue b.ram.update = true → b.ram.programming.imageVerified = true →
    b.ram.update.current.state = BootUpdateState.pendingActivation.code

theorem flagged_eq_false {c : Context} : flagged c = false ↔ c.downloadActive = false ∧
    c.eraseComplete = false ∧ c.transferComplete = false ∧ c.imageVerified = false := by
  simp only [flagged, Bool.or_eq_false_iff, and_assoc]

theorem flagged_aborted (c : Context) : flagged (aborted c) = false := rfl

namespace InStep

variable {b b' : Board} {d : Device Note} {u : BootUpdate.State}

/-- Without flags there is nothing to agree on. -/
theorem of_clear (h : flagged b.ram.programming = false) : InStep b := by
  obtain ⟨hd, he, ht, hv⟩ := flagged_eq_false.1 h
  refine ⟨fun hc => ?_, fun _ hc => ?_, fun _ hc => ?_, fun _ hc => ?_, fun _ hc => ?_,
    fun _ hc => ?_⟩
  · exact absurd (h.symm.trans hc) (by decide)
  · exact absurd (h.symm.trans hc) (by decide)
  · exact absurd (hd.symm.trans hc) (by decide)
  · exact absurd (he.symm.trans hc) (by decide)
  · exact absurd (ht.symm.trans hc) (by decide)
  · exact absurd (hv.symm.trans hc) (by decide)

/-- Once the slot has been erased the journal says DOWNLOAD_READY. -/
theorem of_erased (hvalid : b.ram.update.journalValid = true)
    (hj : Current b.mem b.ram.update.current)
    (hst : b.ram.update.current.state = BootUpdateState.downloadReady.code)
    (hnames : Names b.ram.update.current b.ram.programming)
    (hd : b.ram.programming.downloadActive = false)
    (ht : b.ram.programming.transferComplete = false)
    (hv : b.ram.programming.imageVerified = false) : InStep b := by
  refine ⟨fun _ => ⟨hvalid, _, hj⟩, fun _ _ => hj, fun _ hc => ?_, fun _ _ _ _ => ⟨hst, hnames⟩,
    fun _ hc => ?_, fun _ hc => ?_⟩
  · exact absurd (hd.symm.trans hc) (by decide)
  · exact absurd (ht.symm.trans hc) (by decide)
  · exact absurd (hv.symm.trans hc) (by decide)

theorem congr (h : InStep b) (hmem : b'.mem = b.mem) (hupdate : b'.ram.update = b.ram.update)
    (hprog : b'.ram.programming = b.ram.programming) : InStep b' := by
  refine ⟨?_, ?_, ?_, ?_, ?_, ?_⟩ <;> rw [hupdate, hprog]
  · rw [hmem]
    exact h.stored
  · rw [hmem]
    exact h.current
  · exact h.downloading
  · exact h.erased
  · exact h.transferred
  · exact h.verified

/-- A save that failed for good leaves nothing to rely on. -/
theorem lost (h : InStep b) (hs : BootUpdate.Stored b d u)
    (hu : BootUpdate.canContinue u = false) : InStep (BootUpdate.withUpdate b d u) := by
  have hno : ∀ {p : Prop}, BootUpdate.canContinue u = true → p := by
    intro p hc
    exact absurd (hu.symm.trans hc) (by decide)
  exact ⟨fun hc => ⟨hs.valid.trans (h.stored hc).1, hs.kept (h.stored hc).2⟩, fun hc _ => hno hc,
    fun hc _ => hno hc, fun hc _ => hno hc, fun hc _ => hno hc, fun hc _ => hno hc⟩

/-- A transfer that gets on: the flags are those of a download in state PROGRAMMING. -/
theorem of_downloading (hcan : BootUpdate.canContinue b.ram.update = true)
    (hj : Current b.mem b.ram.update.current)
    (hst : b.ram.update.current.state = BootUpdateState.programming.code)
    (hn : Names b.ram.update.current b.ram.programming)
    (hd : b.ram.programming.downloadActive = true)
    (hv : b.ram.programming.imageVerified = false) : InStep b := by
  have hvalid : b.ram.update.journalValid = true := by
    unfold BootUpdate.canContinue at hcan
    exact (Bool.and_eq_true _ _ ▸ hcan).1
  refine ⟨fun _ => ⟨hvalid, _, hj⟩, fun _ _ => hj, fun _ _ => ⟨hst, hn⟩, fun _ _ hd' => ?_,
    fun _ _ _ => hn, fun _ hv' => ?_⟩
  · exact absurd (hd.symm.trans hd') (by decide)
  · exact absurd (hv.symm.trans hv') (by decide)

/-- The flags of a transfer that is complete, with the journal in a state where nothing is under
    way but its verification. -/
theorem of_transferred (hvalid : b.ram.update.journalValid = true)
    (hj : Current b.mem b.ram.update.current)
    (hn : b.ram.update.current.state = BootUpdateState.transferComplete.code →
      Names b.ram.update.current b.ram.programming)
    (hd : b.ram.programming.downloadActive = false)
    (ht : b.ram.programming.transferComplete = true)
    (hv : b.ram.programming.imageVerified = true →
      b.ram.update.current.state = BootUpdateState.pendingActivation.code) : InStep b := by
  refine ⟨fun _ => ⟨hvalid, _, hj⟩, fun _ _ => hj, fun _ hd' => ?_, fun _ _ _ ht' => ?_,
    fun _ _ => hn, fun _ => hv⟩
  · exact absurd (hd.symm.trans hd') (by decide)
  · exact absurd (ht.symm.trans ht') (by decide)

end InStep

/-- Session and security, as the server and the context have them, are the same. -/
structure SameAccess (b b' : Board) : Prop where
  sessionActive : b'.ram.programming.sessionActive = b.ram.programming.sessionActive
  securityUnlocked : b'.ram.programming.securityUnlocked = b.ram.programming.securityUnlocked
  security : b'.ram.security = b.ram.security
  uds : b'.ram.uds = b.ram.uds

theorem SameAccess.refl (b : Board) : SameAccess b b := ⟨rfl, rfl, rfl, rfl⟩

theorem SameAccess.trans {b b' b'' : Board} (h : SameAccess b b') (h' : SameAccess b' b'') :
    SameAccess b b'' :=
  ⟨h'.sessionActive.trans h.sessionActive, h'.securityUnlocked.trans h.securityUnlocked,
    h'.security.trans h.security, h'.uds.trans h.uds⟩

/-- What a service leaves: agreement with the journal, and the session as it was. -/
def Keeps (b b' : Board) : Prop := InStep b' ∧ SameAccess b b'

theorem Keeps.trans {b b' b'' : Board} (h : SameAccess b b') (h' : Keeps b' b'') : Keeps b b'' :=
  ⟨h'.1, h.trans h'.2⟩

variable {α : Type} {b : Board} {P : Word → Prop}

theorem canContinue_of_access (h : accessCheck b.ram = 0) :
    BootUpdate.canContinue b.ram.update = true := by
  unfold accessCheck at h
  split at h
  · exact absurd h (by decide)
  · split at h
    · exact absurd h (by decide)
    · split at h
      · exact absurd h (by decide)
      · rename_i hc
        simpa using hc

/-- A failure that gives up the transaction and the flags. -/
theorem issues_giveUp {reason : BootUpdateResult} {a : α} :
    Issues (WriteAhead P) (do let _ ← BootUpdate.abort reason; abort; return a)
      (fun _ => Keeps b) b := by
  refine (BootUpdate.issues_abort.weaken fun _ _ _ h => .of_keeping h).bind ?_
  rintro ok b' ⟨d, u, rfl, -⟩
  unfold abort
  rw [Issues.bind_setProgramming]
  exact .pure ⟨.of_clear (flagged_aborted _), rfl, rfl, rfl, rfl⟩

/-- A failure of the erase routine, which has set no flag yet. -/
theorem issues_abandon {reason : BootUpdateResult} {a : α}
    (h : flagged b.ram.programming = false) :
    Issues (WriteAhead P) (do let _ ← BootUpdate.abort reason; return a)
      (fun r b' => r = a ∧ Keeps b b') b := by
  refine (BootUpdate.issues_abort.weaken fun _ _ _ h => .of_keeping h).bind ?_
  rintro ok b' ⟨d, u, rfl, -⟩
  exact .pure ⟨rfl, .of_clear h, rfl, rfl, rfl, rfl⟩

/-- The board between two sectors of the erase routine. -/
structure Erasing (b b' : Board) (j : BootUpdateJournal) : Prop where
  current : Current b'.mem j
  update : b'.ram.update = b.ram.update
  programming : b'.ram.programming = b.ram.programming
  security : b'.ram.security = b.ram.security
  uds : b'.ram.uds = b.ram.uds

theorem Erasing.access {b' : Board} {j : BootUpdateJournal} (h : Erasing b b' j) :
    SameAccess b b' :=
  ⟨by rw [h.programming], by rw [h.programming], h.security, h.uds⟩

theorem Erasing.trans {b' b'' : Board} {j : BootUpdateJournal} (hu : b'.ram.update = b.ram.update)
    (hp : b'.ram.programming = b.ram.programming) (hs : b'.ram.security = b.ram.security)
    (hd : b'.ram.uds = b.ram.uds) (h : Erasing b' b'' j) : Erasing b b'' j :=
  ⟨h.current, h.update.trans hu, h.programming.trans hp, h.security.trans hs, h.uds.trans hd⟩

/-- The response that tells the tester to wait, which may not go out. -/
theorem issues_transmit {R : CommandRel} :
    Issues R BootIsoTp.transmit (fun _ b' => b'.dev = b.dev ∧ b'.ram = b.ram) b :=
  ⟨.refl _, rfl, rfl⟩

theorem issues_eraseLoop {j : BootUpdateJournal} {t : Slot} {header current n : Nat}
    (hj : Current b.mem j) (ht : j.targetSlot = t.code) (hP : P j.state)
    (hclear : flagged b.ram.programming = false) (hlo : t.base ≤ current)
    (hhi : current + flashSectorSize * n ≤ t.base + slotSize) :
    Issues (WriteAhead P) (eraseLoop header current n)
      (fun r b' => (r ≠ 0 → Keeps b b') ∧ (r = 0 → Erasing b b' j)) b := by
  induction n generalizing b current with
  | zero => exact .pure ⟨fun h => absurd rfl h, fun _ => ⟨hj, rfl, rfl, rfl, rfl⟩⟩
  | succ n ih =>
    rw [Nat.mul_succ] at hhi
    unfold eraseLoop
    refine .ite (fun _ => ih hj hclear (by omega) (by omega)) fun _ => ?_
    refine issues_transmit.bind ?_
    rintro ok b₁ ⟨hdev₁, hram₁⟩
    have hmem₁ : b₁.mem = b.mem := congrArg Device.mem hdev₁
    have hsame₁ : SameAccess b b₁ := by
      refine ⟨?_, ?_, ?_, ?_⟩ <;> rw [hram₁]
    have hclear₁ : flagged b₁.ram.programming = false := by rw [hram₁, hclear]
    refine .ite (fun _ => .pure ⟨fun _ => ⟨.of_clear hclear₁, hsame₁⟩,
      fun h => absurd h (by decide)⟩) fun _ => ?_
    refine (BootFlash.issues_erase (b := b₁) fun k _ => .of_target (hmem₁ ▸ hj) ht hP hlo
      (show current + flashSectorSize ≤ _ by omega)).bind ?_
    rintro ok b₂ ⟨d, rfl, hout⟩
    rw [hmem₁] at hout
    have hj₂ : Current (b₁.setDev d).mem j := hj.of_slot (t := t) hout (by omega)
    have hsame₂ : SameAccess b (b₁.setDev d) := ⟨hsame₁.1, hsame₁.2, hsame₁.3, hsame₁.4⟩
    refine .ite (fun _ => ?_) fun _ => ?_
    · refine (issues_abandon (b := b₁.setDev d) hclear₁).mono ?_
      rintro r b' ⟨rfl, hk⟩
      exact ⟨fun _ => .trans hsame₂ hk, fun h => absurd h (by decide)⟩
    · refine (ih (b := b₁.setDev d) hj₂ hclear₁ (by omega) (by omega)).mono ?_
      rintro r b' ⟨hne, heq⟩
      refine ⟨fun hr => .trans hsame₂ (hne hr), fun hr => .trans ?_ ?_ ?_ ?_ (heq hr)⟩ <;>
        simp only [Board.setDev_ram, hram₁]

/-- Before a flag is set, whatever leaves the context alone keeps the server in step. -/
theorem Keeps.of_clear {b' : Board} (hclear : flagged b.ram.programming = false)
    (hp : b'.ram.programming = b.ram.programming) (hs : b'.ram.security = b.ram.security)
    (hu : b'.ram.uds = b.ram.uds) : Keeps b b' :=
  ⟨.of_clear (by rw [hp, hclear]), by rw [hp], by rw [hp], hs, hu⟩

/-- The header of the slot is erased and its magic cleared, under a journal in ERASING. -/
theorem issues_invalidateHeader {j : BootUpdateJournal} {t : Slot} {rest : BootM Byte}
    (hj : Current b.mem j) (ht : j.targetSlot = t.code)
    (hst : j.state = BootUpdateState.erasing.code) (hclear : flagged b.ram.programming = false)
    (hrest : ∀ b', Erasing b b' j → Issues (WriteAhead (· = BootUpdateState.erasing.code)) rest
      (fun _ => Keeps b') b') :
    Issues (WriteAhead (· = BootUpdateState.erasing.code)) (do
      if !(← BootFlash.erase t.header flashSectorSize) then
        let _ ← BootUpdate.abort .eraseFailed
        return 0x72
      if !(← BootFlash.program t.header (fun _ => 0) flashPhraseSize) then
        let _ ← BootUpdate.abort .eraseFailed
        return 0x72
      rest) (fun _ => Keeps b) b := by
  have hhdr := t.headerSector_le
  have hphrase : t.header + flashPhraseSize ≤ t.base + slotSize :=
    le_trans (Nat.add_le_add_left (by decide) _) hhdr.2
  have hgive : ∀ {d : Device Note} {r : Byte},
      Issues (WriteAhead (· = BootUpdateState.erasing.code))
        (do let _ ← BootUpdate.abort .eraseFailed; return r) (fun _ => Keeps b) (b.setDev d) := by
    intro d r
    refine (issues_abandon (b := b.setDev d) hclear).mono ?_
    rintro r b' ⟨-, hk⟩
    exact .trans (⟨rfl, rfl, rfl, rfl⟩ : SameAccess b (b.setDev d)) hk
  refine (BootFlash.issues_erase fun k _ => .of_target hj ht hst hhdr.1 hhdr.2).bind ?_
  rintro ok b₁ ⟨d₁, rfl, hout₁⟩
  refine .ite (fun _ => hgive) fun _ => ?_
  have hj₁ : Current d₁.mem j := hj.of_slot (t := t) hout₁ hhdr.2
  refine (BootFlash.issues_program fun m k o p hm _ ho => .of_target
    (hj₁.of_slot (t := t) hm hphrase) ht hst (show t.base ≤ t.header + o by omega)
    (show t.header + o + flashPhraseSize ≤ _ by omega)).bind ?_
  rintro ok b₂ ⟨d₂, rfl, hout₂⟩
  refine .ite (fun _ => hgive) fun _ => ?_
  have hj₂ : Current d₂.mem j := hj₁.of_slot (t := t) hout₂ hphrase
  have hsame : SameAccess b ((b.setDev d₁).setDev d₂) := ⟨rfl, rfl, rfl, rfl⟩
  exact (hrest ((b.setDev d₁).setDev d₂) ⟨hj₂, rfl, rfl, rfl, rfl⟩).mono fun _ _ hk =>
    .trans hsame hk

/-- The erased slot is announced, in the journal and then in the context. -/
theorem issues_announceErased {t : Slot} (hclear : flagged b.ram.programming = false)
    (hactive : b.ram.update.current.activeSlot = SlotId.code b.ram.programming.activeSlot)
    (htarget : b.ram.update.current.targetSlot = SlotId.code b.ram.programming.targetSlot) :
    Issues (WriteAhead (· = BootUpdateState.erasing.code)) (do
      if !(← BootUpdate.setState .downloadReady) then return (0x72 : Byte)
      BootM.setProgramming fun c =>
        { c with targetAddress := t.base, targetSize := slotSize, eraseComplete := true }
      return 0) (fun _ => Keeps b) b := by
  refine (BootUpdate.issues_setState.weaken fun _ _ _ h => .of_keeping h).bind ?_
  rintro ok b₁ ⟨d, u, rfl, -, hset, -⟩
  refine .ite (fun _ => .pure (.of_clear hclear rfl rfl rfl)) fun hok => ?_
  obtain ⟨-, hp⟩ := hset (by simpa using hok)
  obtain ⟨n, hn⟩ := hp.current
  have hvalid : u.journalValid = true := by
    have hcan := hp.can
    unfold BootUpdate.canContinue at hcan
    exact (Bool.and_eq_true _ _ ▸ hcan).1
  have hnames : Names u.current b.ram.programming := by
    rw [hn]
    exact ⟨hactive, htarget⟩
  obtain ⟨hd, -, ht, hv⟩ := flagged_eq_false.1 hclear
  rw [Issues.bind_setProgramming]
  refine .pure ⟨.of_erased hvalid hp.durable ?_ hnames hd ht hv, rfl, rfl, rfl, rfl⟩
  show u.current.state = _
  rw [hn]
  rfl

/-- `BootProgramming_Erase` from `BootUpdate_Begin` on. -/
theorem issues_eraseTarget {active : SlotId} {t : Slot}
    (hclear : flagged b.ram.programming = false) (hactive : b.ram.programming.activeSlot = active)
    (htarget : b.ram.programming.targetSlot = some t) :
    Issues (WriteAhead (· = BootUpdateState.erasing.code))
      (eraseTarget active (some t) t.base slotSize) (fun _ => Keeps b) b := by
  unfold eraseTarget
  dsimp only
  rw [show BootSlot.getHeaderAddress (some t) = t.header from rfl]
  refine (BootUpdate.issues_beginUpdate.weaken fun _ _ _ h => .of_keeping h).bind ?_
  rintro ok b₁ ⟨d₁, u₁, rfl, -, hbegun⟩
  refine .ite (fun _ => .pure (.of_clear hclear rfl rfl rfl)) fun hok₁ => ?_
  obtain ⟨-, -, ha₁, ht₁⟩ := hbegun (by simpa using hok₁)
  refine (BootUpdate.issues_setState.weaken fun _ _ _ h => .of_keeping h).bind ?_
  rintro ok b₂ ⟨d₂, u₂, rfl, -, hset, -⟩
  refine .ite (fun _ => .pure (.of_clear hclear rfl rfl rfl)) fun hok₂ => ?_
  obtain ⟨-, hp₂⟩ := hset (by simpa using hok₂)
  obtain ⟨n₂, hn₂⟩ := hp₂.current
  -- from here on the journal names the slot and says ERASING
  have hst₂ : u₂.current.state = BootUpdateState.erasing.code := by rw [hn₂]; rfl
  have ha₂ : u₂.current.activeSlot = SlotId.code active := by rw [hn₂]; exact ha₁
  have ht₂ : u₂.current.targetSlot = t.code := by rw [hn₂]; exact ht₁
  have hsame : SameAccess b (BootUpdate.withUpdate (BootUpdate.withUpdate b d₁ u₁) d₂ u₂) :=
    ⟨rfl, rfl, rfl, rfl⟩
  refine (issues_invalidateHeader (b := BootUpdate.withUpdate (BootUpdate.withUpdate b d₁ u₁) d₂ u₂)
    hp₂.durable ht₂ hst₂ hclear fun b₃ h₃ => ?_).mono fun _ _ hk => .trans hsame hk
  have hclear₃ : flagged b₃.ram.programming = false := by rw [h₃.programming]; exact hclear
  refine (issues_eraseLoop h₃.current ht₂ hst₂ hclear₃ (le_refl _) ?_).bind ?_
  · exact Nat.add_le_add_left (by decide) _
  rintro r b₄ ⟨hne, heq⟩
  refine .ite (fun hr => .pure (hne hr)) fun hr => ?_
  have h₄ := heq (not_not.1 hr)
  refine (issues_announceErased (by rw [h₄.programming, hclear₃]) ?_ ?_).mono fun _ _ hk =>
    .trans h₄.access hk
  · rw [h₄.update, h₃.update, h₄.programming, h₃.programming]
    exact ha₂.trans (congrArg SlotId.code hactive).symm
  · rw [h₄.update, h₃.update, h₄.programming, h₃.programming]
    exact ht₂.trans (congrArg SlotId.code htarget).symm

/-- `BootFlash_ConfigureSlots` changes the variables of the flash only. -/
theorem issues_configureSlots {R : CommandRel} {active target : SlotId} :
    Issues R (BootFlash.configureSlots active target)
      (fun _ b' => ∃ f, b' = { b with ram := { b.ram with flash := f } }) b := by
  unfold BootFlash.configureSlots
  rw [Issues.bind_setFlash, Issues.bind_getRam]
  refine .ite (fun _ => .pure ⟨_, rfl⟩) fun _ => ?_
  refine Issues.bind (Q := fun _ b' => ∃ f, b' = { b with ram := { b.ram with flash := f } }) ?_ ?_
  · unfold FlashDriver.init FlashDriver.setWindow
    rw [Issues.bind_setFlash]
    cases target with
    | none => exact .pure ⟨_, rfl⟩
    | some t =>
      refine .ite (fun _ => .pure ⟨_, rfl⟩) fun _ => ?_
      rw [Issues.bind_setFlash]
      exact .pure ⟨_, rfl⟩
  · rintro ok b' ⟨f, rfl⟩
    refine .ite (fun _ => .pure ⟨_, rfl⟩) fun _ => ?_
    rw [Issues.bind_setFlash]
    exact .pure ⟨_, rfl⟩

/-- Service FF00. -/
theorem issues_erase {address size : Nat} (h : InStep b) :
    Issues (WriteAhead (· = BootUpdateState.erasing.code)) (erase address size)
      (fun _ => Keeps b) b := by
  have hsame : Keeps b b := ⟨h, .refl b⟩
  unfold erase
  rw [Issues.bind_getRam]
  dsimp only
  refine .ite (fun _ => .pure hsame) fun _ => ?_
  refine .ite (fun _ => .pure hsame) fun _ => ?_
  refine .ite (fun _ => .pure hsame) fun hexact => ?_
  refine .ite (fun _ => .pure hsame) fun _ => ?_
  obtain ⟨t, ht, -, rfl, rfl⟩ := exists_target_of_exact (by simpa using hexact)
  unfold abort
  rw [Issues.bind_setProgramming]
  refine issues_configureSlots.bind ?_
  rintro ok b₁ ⟨f, rfl⟩
  refine .ite (fun _ => .pure ⟨.of_clear (flagged_aborted _), rfl, rfl, rfl, rfl⟩) fun _ => ?_
  refine issues_transmit.bind ?_
  rintro ok b₂ ⟨-, hram₂⟩
  have hclear : flagged b₂.ram.programming = false := by
    rw [hram₂]
    exact flagged_aborted _
  have hsame₂ : SameAccess b b₂ := by
    refine ⟨?_, ?_, ?_, ?_⟩ <;> rw [hram₂] <;> rfl
  refine .ite (fun _ => .pure ⟨.of_clear hclear, hsame₂⟩) fun _ => ?_
  rw [ht]
  refine (issues_eraseTarget hclear ?_ ?_).mono fun _ _ hk => .trans hsame₂ hk
  · rw [hram₂]
    rfl
  · rw [hram₂]
    exact ht

/-- Service 34. -/
theorem issues_download {address size : Nat} (h : InStep b) :
    Issues Keeping (download address size) (fun _ => Keeps b) b := by
  have hsame : Keeps b b := ⟨h, .refl b⟩
  unfold download
  rw [Issues.bind_getRam]
  dsimp only
  refine .ite (fun _ => .pure hsame) fun hacc => ?_
  refine .ite (fun _ => .pure hsame) fun _ => ?_
  refine .ite (fun _ => .pure hsame) fun hgo => ?_
  have hcan := canContinue_of_access (not_not.1 hacc)
  simp only [Bool.or_eq_true, not_or, Bool.not_eq_true', Bool.not_eq_false, Bool.not_eq_true]
    at hgo
  obtain ⟨⟨⟨⟨⟨he, hd⟩, ht⟩, -⟩, -⟩, -⟩ := hgo
  obtain ⟨-, hn⟩ := h.erased hcan he hd ht
  refine BootUpdate.issues_setState.bind ?_
  rintro ok b₁ ⟨d, u, rfl, hs, hset, hno⟩
  refine .ite (fun hf => .pure ⟨?_, rfl, rfl, rfl, rfl⟩) fun hok => ?_
  · rcases hno (by simpa using hf) with ⟨rfl, rfl⟩ | hu
    · exact h
    · exact h.lost hs hu
  obtain ⟨-, hp⟩ := hset (by simpa using hok)
  obtain ⟨n, hcur⟩ := hp.current
  rw [Issues.bind_setProgramming]
  refine .pure ⟨.of_downloading hp.can hp.durable ?_ ?_ rfl rfl, rfl, rfl, rfl, rfl⟩
  · show u.current.state = _
    rw [hcur]
    rfl
  · show Names u.current _
    rw [hcur]
    exact hn

/-- A transfer under way, in step with the journal. -/
structure Streaming (b : Board) : Prop where
  can : BootUpdate.canContinue b.ram.update = true
  downloading : b.ram.programming.downloadActive = true
  unverified : b.ram.programming.imageVerified = false
  current : Current b.mem b.ram.update.current
  state : b.ram.update.current.state = BootUpdateState.programming.code
  names : Names b.ram.update.current b.ram.programming

theorem InStep.streaming (h : InStep b) (hcan : BootUpdate.canContinue b.ram.update = true)
    (hd : b.ram.programming.downloadActive = true) : Streaming b := by
  obtain ⟨hst, hn⟩ := h.downloading hcan hd
  refine ⟨hcan, hd, ?_, h.current hcan (by simp [flagged, hd]), hst, hn⟩
  -- a verified image would have the journal in another state
  by_contra hv
  have := h.verified hcan (by simpa using hv)
  rw [hst] at this
  exact absurd this (by decide)

/-- A change of the context that concerns the buffers and counters only. -/
theorem Streaming.withContext {c : Context} (h : Streaming b)
    (hd : c.downloadActive = b.ram.programming.downloadActive)
    (hv : c.imageVerified = b.ram.programming.imageVerified)
    (ha : c.activeSlot = b.ram.programming.activeSlot)
    (ht : c.targetSlot = b.ram.programming.targetSlot) :
    Streaming { b with ram := { b.ram with programming := c } } :=
  ⟨h.can, hd.trans h.downloading, hv.trans h.unverified, h.current, h.state,
    h.names.1.trans (congrArg _ ha.symm), h.names.2.trans (congrArg _ ht.symm)⟩

theorem issues_flushPhrase (h : Streaming b) :
    Issues (WriteAhead (· = BootUpdateState.programming.code)) flushPhrase
      (fun _ b' => Streaming b' ∧ SameAccess b b') b := by
  have hsame : Streaming b ∧ SameAccess b b := ⟨h, .refl b⟩
  unfold flushPhrase
  rw [Issues.bind_getRam]
  dsimp only
  refine .ite (fun _ => .pure hsame) fun hrange => ?_
  refine .ite (fun _ => ?_) fun _ => .ite (fun _ => .pure hsame) fun _ => ?_
  · rw [Issues.bind_setProgramming]
    exact .pure ⟨h.withContext rfl rfl rfl rfl, rfl, rfl, rfl, rfl⟩
  simp only [Bool.or_eq_true, not_or, Bool.not_eq_true', Bool.not_eq_false] at hrange
  obtain ⟨t, ht⟩ : ∃ t, b.ram.programming.targetSlot = some t := by
    cases htarget : b.ram.programming.targetSlot with
    | none =>
      rw [htarget] at hrange
      exact absurd hrange.1 (by simp [BootSlot.containsRange, BootSlot.getDescriptor])
    | some t => exact ⟨t, rfl⟩
  rw [ht, BootFlash.containsRange_iff] at hrange
  have hname : b.ram.update.current.targetSlot = t.code := by
    rw [h.names.2, ht]
    rfl
  refine (BootFlash.issues_program fun m k o p hm _ ho => .of_target
    (h.current.of_slot (t := t) hm hrange.1.2.2) hname h.state
    (show t.base ≤ _ + o by omega) (show _ + o + flashPhraseSize ≤ _ by omega)).bind ?_
  rintro ok b₁ ⟨d, rfl, hout⟩
  have h₁ : Streaming (b.setDev d) :=
    ⟨h.can, h.downloading, h.unverified, h.current.of_slot (t := t) hout hrange.1.2.2, h.state,
      h.names⟩
  refine .ite (fun _ => .pure ⟨h₁, rfl, rfl, rfl, rfl⟩) fun _ => ?_
  rw [Issues.bind_setProgramming]
  exact .pure ⟨h₁.withContext rfl rfl rfl rfl, rfl, rfl, rfl, rfl⟩

theorem issues_transferLoop {data : List Byte} (h : Streaming b) :
    Issues (WriteAhead (· = BootUpdateState.programming.code)) (transferLoop data)
      (fun _ b' => Streaming b' ∧ SameAccess b b') b := by
  induction data generalizing b with
  | nil => exact .pure ⟨h, .refl b⟩
  | cons byte bytes ih =>
    unfold transferLoop
    rw [Issues.bind_setProgramming, Issues.bind_getRam]
    generalize hb₁ : ({ b with ram := { b.ram with programming := _ } } : Board) = b₁
    have h₁ : Streaming b₁ ∧ SameAccess b b₁ := by
      rw [← hb₁]
      exact ⟨h.withContext rfl rfl rfl rfl, rfl, rfl, rfl, rfl⟩
    have hrest : ∀ b', Streaming b' ∧ SameAccess b b' →
        Issues (WriteAhead (· = BootUpdateState.programming.code)) (transferLoop bytes)
          (fun _ b'' => Streaming b'' ∧ SameAccess b b'') b' :=
      fun b' hb' => (ih hb'.1).mono fun _ _ hq => ⟨hq.1, hb'.2.trans hq.2⟩
    refine .ite (fun _ => ?_) fun _ => hrest b₁ h₁
    refine (issues_flushPhrase h₁.1).bind ?_
    rintro ok b₂ ⟨h₂, ha₂⟩
    exact .ite (fun _ => .pure ⟨h₂, h₁.2.trans ha₂⟩) fun _ => hrest b₂ ⟨h₂, h₁.2.trans ha₂⟩

/-- Service 36. -/
theorem issues_transfer {sequence : Byte} {data : List Byte} (h : InStep b) :
    Issues (WriteAhead (· = BootUpdateState.programming.code)) (transfer sequence data)
      (fun _ => Keeps b) b := by
  have hsame : Keeps b b := ⟨h, .refl b⟩
  unfold transfer
  rw [Issues.bind_getRam]
  dsimp only
  refine .ite (fun _ => .pure hsame) fun hacc => ?_
  refine .ite (fun _ => .pure hsame) fun hdown => ?_
  refine .ite (fun _ => .pure hsame) fun _ => ?_
  refine .ite (fun _ => .pure hsame) fun _ => ?_
  refine .ite (fun _ => .pure hsame) fun _ => ?_
  have hstream := h.streaming (canContinue_of_access (not_not.1 hacc)) (by simpa using hdown)
  refine (issues_transferLoop hstream).bind ?_
  rintro ok b₁ ⟨h₁, ha₁⟩
  refine .ite (fun _ => issues_giveUp.mono fun _ _ hk => .trans ha₁ hk) fun _ => ?_
  rw [Issues.bind_setProgramming, Issues.bind_getRam]
  have h₂ : Streaming { b₁ with ram := { b₁.ram with programming := { b₁.ram.programming with
      receivedSize := b₁.ram.programming.receivedSize + data.length } } } :=
    h₁.withContext rfl rfl rfl rfl
  refine (BootUpdate.issues_setProgress.weaken fun _ _ _ hc => .of_keeping hc).bind ?_
  rintro ok b₃ ⟨d, u, rfl, hs, hok⟩
  refine .ite (fun _ => ?_) fun hset => ?_
  · unfold abort
    rw [Issues.bind_setProgramming]
    exact .pure ⟨.of_clear (flagged_aborted _), ha₁.1, ha₁.2, ha₁.3, ha₁.4⟩
  rw [Issues.bind_setProgramming]
  refine .pure ⟨?_, ha₁.1, ha₁.2, ha₁.3, ha₁.4⟩
  rcases hok (by simpa using hset) with ⟨rfl, rfl⟩ | ⟨hcan, hj, hst, hact, htgt⟩
  · exact .of_downloading h₂.can h₂.current h₂.state h₂.names h₂.downloading h₂.unverified
  · exact .of_downloading hcan hj hst ⟨hact.trans h₂.names.1, htgt.trans h₂.names.2⟩ h₂.downloading
      h₂.unverified

/-- Service 37. -/
theorem issues_exit (h : InStep b) : Issues Keeping exit (fun _ => Keeps b) b := by
  have hsame : Keeps b b := ⟨h, .refl b⟩
  unfold exit
  rw [Issues.bind_getRam]
  dsimp only
  refine .ite (fun _ => .pure hsame) fun hacc => ?_
  refine .ite (fun _ => .pure hsame) fun hgo => ?_
  simp only [Bool.or_eq_true, not_or, Bool.not_eq_true', Bool.not_eq_false] at hgo
  have hstream := h.streaming (canContinue_of_access (not_not.1 hacc)) hgo.1.1.1
  refine BootUpdate.issues_markTransferComplete.bind ?_
  rintro ok b₁ ⟨d, u, rfl, hs, hok, hno⟩
  refine .ite (fun hf => .pure ⟨?_, rfl, rfl, rfl, rfl⟩) fun hset => ?_
  · rcases hno (by simpa using hf) with ⟨rfl, rfl⟩ | hu
    · exact h
    · exact h.lost hs hu
  obtain ⟨hcan, hj, hact, htgt⟩ := hok (by simpa using hset)
  rw [Issues.bind_setProgramming]
  refine .pure ⟨.of_transferred ?_ hj (fun _ => ?_) rfl rfl fun hv => ?_, rfl, rfl, rfl, rfl⟩
  · unfold BootUpdate.canContinue at hcan
    exact (Bool.and_eq_true _ _ ▸ hcan).1
  · exact ⟨hact.trans hstream.names.1, htgt.trans hstream.names.2⟩
  · exact absurd (hstream.unverified.symm.trans hv) (by decide)

/-- The verification is under way: the journal says VERIFYING and names the target. -/
structure Checking (b : Board) : Prop where
  valid : b.ram.update.journalValid = true
  current : Current b.mem b.ram.update.current
  state : b.ram.update.current.state = BootUpdateState.verifying.code
  target : b.ram.update.current.targetSlot = SlotId.code b.ram.programming.targetSlot
  idle : b.ram.programming.downloadActive = false
  complete : b.ram.programming.transferComplete = true
  unverified : b.ram.programming.imageVerified = false

namespace Checking

variable {c : Context} {d : Device Note}

theorem inStep (h : Checking b) : InStep b := by
  refine .of_transferred h.valid h.current (fun hst => ?_) h.idle h.complete fun hv => ?_
  · rw [h.state] at hst
    exact absurd hst (by decide)
  · exact absurd (h.unverified.symm.trans hv) (by decide)

/-- The result of the validation is noted. -/
theorem withContext (h : Checking b) (ht : c.targetSlot = b.ram.programming.targetSlot)
    (hd : c.downloadActive = b.ram.programming.downloadActive)
    (htc : c.transferComplete = b.ram.programming.transferComplete)
    (hv : c.imageVerified = false) :
    Checking { b with ram := { b.ram with programming := c } } :=
  ⟨h.valid, h.current, h.state, h.target.trans (congrArg _ ht.symm), hd.trans h.idle,
    htc.trans h.complete, hv⟩

theorem wrote (h : Checking b) {t : Slot} {address size : Nat}
    (hout : SameOutside address size b.mem d.mem) (hhi : address + size ≤ t.base + slotSize) :
    Checking (b.setDev d) :=
  ⟨h.valid, h.current.of_slot hout hhi, h.state, h.target, h.idle, h.complete, h.unverified⟩

theorem of_ram {b' : Board} (h : Checking b) (hdev : b'.dev = b.dev) (hram : b'.ram = b.ram) :
    Checking b' := by
  have hmem : b'.mem = b.mem := congrArg Device.mem hdev
  refine ⟨?_, ?_, ?_, ?_, ?_, ?_, ?_⟩ <;> rw [hram]
  · exact h.valid
  · rw [hmem]
    exact h.current
  · exact h.state
  · exact h.target
  · exact h.idle
  · exact h.complete
  · exact h.unverified

/-- The image is refused: the transaction is given up, the flags stay. -/
theorem issues_refuse {reason : BootUpdateResult} {a : α} (h : Checking b) :
    Issues (WriteAhead P) (do let _ ← BootUpdate.abort reason; return a) (fun _ => Keeps b) b := by
  refine (BootUpdate.issues_abort.weaken fun _ _ _ h => .of_keeping h).bind ?_
  rintro ok b' ⟨d, u, rfl, hs, hok, hno⟩
  refine .pure ⟨?_, rfl, rfl, rfl, rfl⟩
  cases ok with
  | true =>
    obtain ⟨n, hcur⟩ := (hok rfl).current
    refine .of_transferred (hs.valid.trans h.valid) (hok rfl).durable (fun hst => ?_) h.idle
      h.complete fun hv => ?_
    · have hst' : u.current.state = BootUpdateState.transferComplete.code := hst
      rw [hcur] at hst'
      exact absurd hst' (show ¬ BootUpdateState.aborted.code = _ by decide)
    · exact absurd (h.unverified.symm.trans hv) (by decide)
  | false =>
    rcases hno rfl with ⟨rfl, rfl⟩ | hu
    · exact Checking.inStep ⟨h.valid, h.current, h.state, h.target, h.idle, h.complete, h.unverified⟩
    · exact h.inStep.lost hs hu

end Checking

/-- `BootUpdate_MarkVerified` at the end of the verification. -/
theorem issues_verifyPublished {c : Context} (h : Checking b) :
    Issues (WriteAhead P) (verifyPublished c) (fun _ => Keeps b) b := by
  unfold verifyPublished
  rw [Issues.bind_flash]
  dsimp only
  rw [Issues.bind_setProgramming]
  generalize (BootImage.loadInfo b.mem c.targetSlot).validationResult = result
  refine .ite (fun hne => ?_) fun heq => ?_
  · have hfalse : (result == BootImageValidationResult.valid) = false := by simpa using hne
    refine (Checking.issues_refuse (b := { b with ram := { b.ram with programming :=
      { b.ram.programming with validationResult := result, imageVerified := result == .valid } } })
      (h.withContext rfl rfl rfl hfalse)).mono fun _ _ hk => ⟨hk.1, hk.2.1, hk.2.2, hk.2.3, hk.2.4⟩
  refine (BootUpdate.issues_markVerified.weaken fun _ _ _ hc => .of_keeping hc).bind ?_
  rintro ok b' ⟨d, u, rfl, hs, hok, hno⟩
  refine .ite (fun ht => ?_) fun hf => ?_
  · obtain ⟨-, hj, hst⟩ := hok ht
    refine .pure ⟨.of_transferred (hs.valid.trans h.valid) hj (fun hst' => ?_) h.idle h.complete
      fun _ => hst, rfl, rfl, rfl, rfl⟩
    exact absurd (hst.symm.trans hst') (by decide)
  · rw [Issues.bind_setProgramming]
    refine .pure ⟨?_, rfl, rfl, rfl, rfl⟩
    rcases hno (by simpa using hf) with ⟨rfl, rfl⟩ | hu
    · exact Checking.inStep ⟨h.valid, h.current, h.state, h.target, h.idle, h.complete, rfl⟩
    · have h' : Checking { b with ram := { b.ram with programming := { b.ram.programming with
          validationResult := result, imageVerified := false } } } :=
        h.withContext rfl rfl rfl rfl
      exact h'.inStep.lost (d := d) (u := u) ⟨hs.outside, hs.kept, hs.valid⟩ hu

/-- The publication of the header, with the journal in state VERIFYING. -/
theorem issues_verifyPublish {c : Context} (h : Checking b)
    (hc : c.targetSlot = b.ram.programming.targetSlot) :
    Issues (WriteAhead (· = BootUpdateState.verifying.code)) (verifyPublish c)
      (fun _ => Keeps b) b := by
  obtain ⟨t, ht⟩ := h.current.wellFormed.targetSlot
  have htarget : c.targetSlot = some t := by
    rw [hc]
    exact SlotId.code_injective (h.target.symm.trans ht)
  have hhdr := t.headerSector_le
  have hrecord : t.header + BootImageHeader.size ≤ t.base + slotSize :=
    le_trans (Nat.add_le_add_left (by decide) _) hhdr.2
  unfold verifyPublish
  rw [htarget]
  dsimp only
  rw [show BootSlot.getHeaderAddress (some t) = t.header from rfl]
  refine (BootFlash.issues_erase fun k _ => .of_target h.current ht h.state hhdr.1 hhdr.2).bind ?_
  rintro ok b₁ ⟨d₁, rfl, hout₁⟩
  have h₁ : Checking (b.setDev d₁) := h.wrote (t := t) hout₁ hhdr.2
  refine .ite (fun _ => (issues_giveUp (b := b.setDev d₁)).mono fun _ _ hk =>
    ⟨hk.1, hk.2.1, hk.2.2, hk.2.3, hk.2.4⟩) fun _ => ?_
  refine (BootFlash.issues_program (b := b.setDev d₁) fun m k o p hm _ ho => .of_target
    (h₁.current.of_slot (t := t) hm hrecord) ht h.state (show t.base ≤ t.header + o by omega)
    (show t.header + o + flashPhraseSize ≤ _ by omega)).bind ?_
  rintro ok b₂ ⟨d₂, rfl, hout₂⟩
  have h₂ : Checking ((b.setDev d₁).setDev d₂) := h₁.wrote (t := t) hout₂ hrecord
  refine .ite (fun _ => (issues_giveUp (b := (b.setDev d₁).setDev d₂)).mono fun _ _ hk =>
    ⟨hk.1, hk.2.1, hk.2.2, hk.2.3, hk.2.4⟩) fun _ => ?_
  refine issues_transmit.bind ?_
  rintro ok b₃ ⟨hdev₃, hram₃⟩
  have h₃ : Checking b₃ := h₂.of_ram hdev₃ hram₃
  have hsame₃ : SameAccess b b₃ := by
    refine ⟨?_, ?_, ?_, ?_⟩ <;> rw [hram₃] <;> rfl
  exact .ite (fun _ => .pure ⟨h₃.inStep, hsame₃⟩) fun _ =>
    (issues_verifyPublished h₃).mono fun _ _ hk => .trans hsame₃ hk

/-- Only a transaction whose transfer is complete becomes VERIFYING. -/
theorem transferComplete_of_allowed {st : Word}
    (h : BootUpdate.transitionAllowed st BootUpdateState.verifying.code = true) :
    st = BootUpdateState.transferComplete.code := by
  unfold BootUpdate.transitionAllowed at h
  rw [if_neg (fun hc => absurd hc.2 (by decide)), if_neg (by decide), if_neg (by decide),
    decide_eq_true_eq] at h
  have hcode : BootUpdateState.verifying.code = BootUpdateState.transferComplete.code + 1 := by
    decide
  rw [hcode] at h
  generalize BootUpdateState.transferComplete.code = tc at h ⊢
  have := h.2.2
  bv_omega

/-- Service FF01. -/
theorem issues_verify (h : InStep b) :
    Issues (WriteAhead (· = BootUpdateState.verifying.code)) verify (fun _ => Keeps b) b := by
  have hsame : Keeps b b := ⟨h, .refl b⟩
  unfold verify
  rw [Issues.bind_getRam]
  dsimp only
  refine .ite (fun _ => .pure hsame) fun hacc => ?_
  refine .ite (fun _ => .pure hsame) fun hgo => ?_
  have hcan := canContinue_of_access (not_not.1 hacc)
  simp only [Bool.or_eq_true, not_or, Bool.not_eq_true', Bool.not_eq_false, Bool.not_eq_true]
    at hgo
  obtain ⟨⟨⟨he, htc⟩, hd⟩, hv⟩ := hgo
  -- the pending response comes first; it issues no command
  refine issues_transmit.bind ?_
  rintro ok b₁ ⟨hdev₁, hram₁⟩
  have h₁ : InStep b₁ :=
    h.congr (congrArg Device.mem hdev₁) (by rw [hram₁]) (by rw [hram₁])
  have hsame₁ : SameAccess b b₁ := by
    refine ⟨?_, ?_, ?_, ?_⟩ <;> rw [hram₁]
  refine .ite (fun _ => .pure ⟨h₁, hsame₁⟩) fun _ => ?_
  rw [← hram₁] at hcan htc hd hv ⊢
  refine (BootUpdate.issues_setState.weaken fun _ _ _ hc => .of_keeping hc).bind ?_
  rintro ok b₂ ⟨d, u, rfl, hs, hset, hno⟩
  refine .ite (fun hf => .pure ⟨?_, hsame₁.1, hsame₁.2, hsame₁.3, hsame₁.4⟩) fun hok => ?_
  · rcases hno (by simpa using hf) with ⟨rfl, rfl⟩ | hu
    · exact h₁
    · exact h₁.lost hs hu
  obtain ⟨hallowed, hp⟩ := hset (by simpa using hok)
  obtain ⟨n, hcur⟩ := hp.current
  have hnames := h₁.transferred hcan htc (transferComplete_of_allowed hallowed)
  -- from here on the journal is in VERIFYING
  have h₂ : Checking (BootUpdate.withUpdate b₁ d u) := by
    refine ⟨?_, hp.durable, ?_, ?_, hd, htc, hv⟩
    · have := hp.can
      unfold BootUpdate.canContinue at this
      exact (Bool.and_eq_true _ _ ▸ this).1
    · show u.current.state = _
      rw [hcur]
      rfl
    · show u.current.targetSlot = _
      rw [hcur]
      exact hnames.2
  rw [Issues.bind_flash, Issues.bind_setProgramming]
  generalize (BootImage.validate (BootUpdate.withUpdate b₁ d u).mem b₁.ram.programming.targetSlot
    { BootImage.zeroInfo with header := b₁.ram.programming.stagedHeader }).validationResult = result
  have h₃ := h₂.withContext (c := { b₁.ram.programming with validationResult := result }) rfl rfl rfl
    hv
  generalize hb₃ : ({ BootUpdate.withUpdate b₁ d u with ram := { (BootUpdate.withUpdate b₁ d u).ram
    with programming := _ } } : Board) = b₃
  have h₃' : Checking b₃ ∧ SameAccess b b₃ ∧
      b₃.ram.programming.targetSlot = b₁.ram.programming.targetSlot := by
    rw [← hb₃]
    exact ⟨h₃, ⟨hsame₁.1, hsame₁.2, hsame₁.3, hsame₁.4⟩, rfl⟩
  obtain ⟨hcheck, hsame₃, htgt⟩ := h₃'
  refine .ite (fun _ => hcheck.issues_refuse.mono fun _ _ hk => .trans hsame₃ hk) fun _ => ?_
  refine .ite (fun _ => hcheck.issues_refuse.mono fun _ _ hk => .trans hsame₃ hk) fun _ => ?_
  refine issues_transmit.bind ?_
  rintro ok b₄ ⟨hdev₄, hram₄⟩
  have hcheck₄ : Checking b₄ := hcheck.of_ram hdev₄ hram₄
  have hsame₄ : SameAccess b b₄ := by
    refine hsame₃.trans ?_
    refine ⟨?_, ?_, ?_, ?_⟩ <;> rw [hram₄]
  refine .ite (fun _ => .pure ⟨hcheck₄.inStep, hsame₄⟩) fun _ => ?_
  refine (issues_verifyPublish hcheck₄ ?_).mono fun _ _ hk => .trans hsame₄ hk
  rw [hram₄, htgt]

end BootProgramming

/-! ## Recovery -/

/-- The states in which a boot writes to the target slot. -/
def Recovering (st : Word) : Prop :=
  st = BootUpdateState.verifying.code ∨ st = BootUpdateState.verified.code ∨
    st = BootUpdateState.pendingActivation.code

section

variable {b : Board} {P : Word → Prop}

theorem Upkeep.ahead {α : Type} {m : BootM α} (h : Upkeep m) :
    Issues (WriteAhead P) m (fun _ b' => SameServer b b') b :=
  (h b).weaken fun _ _ _ hc => .of_housekeeping hc

/-- `BootImageInstall_ValidateAndPublish` for the target of the current record. -/
theorem BootImageInstall.issues_validateAndPublish {j : BootUpdateJournal} {active : SlotId}
    {header : BootImageHeader} (hj : Current b.mem j) (hP : P j.state) :
    Issues (WriteAhead P) (validateAndPublish active (.ofCode j.targetSlot) header)
      (fun _ _ => True) b := by
  obtain ⟨t, ht⟩ := hj.wellFormed.targetSlot
  have hhdr := t.headerSector_le
  have hrecord : t.header + BootImageHeader.size ≤ t.base + slotSize :=
    le_trans (Nat.add_le_add_left (by decide) _) hhdr.2
  have hcode : SlotId.ofCode j.targetSlot = some t := by
    rw [ht]
    exact SlotId.ofCode_code (some t)
  unfold validateAndPublish
  rw [hcode]
  dsimp only
  rw [Issues.bind_flash, show BootSlot.getHeaderAddress (some t) = t.header from rfl]
  refine .ite (fun _ => .pure trivial) fun _ => .ite (fun _ => .pure trivial) fun _ => ?_
  refine BootProgramming.issues_configureSlots.bind ?_
  rintro ok b₁ ⟨f, rfl⟩
  refine .ite (fun _ => .pure trivial) fun _ => ?_
  refine (BootFlash.issues_erase fun k _ => .of_target hj ht hP hhdr.1 hhdr.2).bind ?_
  rintro ok b₂ ⟨d₂, rfl, hout₂⟩
  refine .ite (fun _ => .pure trivial) fun _ => ?_
  have hj₂ : Current d₂.mem j := hj.of_slot (t := t) hout₂ hhdr.2
  refine (BootFlash.issues_program fun m k o p hm _ ho => .of_target
    (hj₂.of_slot (t := t) hm hrecord) ht hP (show t.base ≤ t.header + o by omega)
    (show t.header + o + flashPhraseSize ≤ _ by omega)).bind ?_
  rintro ok b₃ ⟨d₃, rfl, hout₃⟩
  refine .ite (fun _ => .pure trivial) fun _ => ?_
  rw [Issues.bind_flash]
  exact .pure trivial

namespace BootUpdate

theorem issues_revalidate {action : BootRecoveryAction}
    (hj : Current b.mem b.ram.update.current) (hP : P b.ram.update.current.state) :
    Issues (WriteAhead P) (revalidate action) (fun _ _ => True) b := by
  unfold revalidate
  rw [Issues.bind_getRam]
  refine (BootImageInstall.issues_validateAndPublish hj hP).bind fun ok b₁ _ => ?_
  refine .ite (fun _ => ?_) fun _ => .ite (fun _ => ?_) fun _ => ?_
  · refine (issues_abort.weaken fun _ _ _ hc => .of_keeping hc).bind fun _ _ _ => .pure trivial
  · rw [Issues.bind_setUpdate]
    exact .pure trivial
  · exact (issues_markVerified.weaken fun _ _ _ hc => .of_keeping hc).mono fun _ _ _ => trivial

/-- `BootUpdate_LoadRecoveryState`. -/
theorem issues_loadRecoveryState :
    Issues (WriteAhead Recovering) loadRecoveryState (fun _ _ => True) b := by
  unfold loadRecoveryState recoverLoaded
  rw [Issues.bind_flash]
  cases hl : BootJournal.loadLatest b.mem with
  | empty =>
    dsimp only
    rw [Issues.bind_setUpdate, Issues.bind_getRam]
    exact .pure trivial
  | invalid =>
    dsimp only
    rw [Issues.bind_setUpdate, Issues.bind_getRam]
    exact .pure trivial
  | valid k j =>
    dsimp only
    rw [Issues.bind_setUpdate, Issues.bind_getRam]
    generalize hb₁ : ({ b with ram := { b.ram with update := _ } } : Board) = b₁
    have hcur : b₁.ram.update.current = j := by rw [← hb₁]
    have hvalid : b₁.ram.update.journalValid = true := by rw [← hb₁]
    have hj : Current b₁.mem b₁.ram.update.current := by
      rw [hcur, ← hb₁]
      exact ⟨k, hl⟩
    have habort : ∀ reason, Issues (WriteAhead Recovering) (abort reason) (fun _ _ => True) b₁ :=
      fun reason => (issues_abort.weaken fun _ _ _ hc => .of_keeping hc).mono fun _ _ _ => trivial
    -- a transaction whose transfer is complete becomes VERIFYING before anything is written
    have hrest : ∀ action, (b₁.ram.update.current.state ≠ BootUpdateState.transferComplete.code →
        Recovering b₁.ram.update.current.state) → Issues (WriteAhead Recovering)
        (if b₁.ram.update.current.state = BootUpdateState.transferComplete.code then do
          if !(← setState .verifying) then return false
          revalidate action
        else revalidate action) (fun _ _ => True) b₁ := by
      intro action hst
      refine .ite (fun _ => ?_) fun hne => issues_revalidate hj (hst hne)
      refine (issues_setState.weaken fun _ _ _ hc => .of_keeping hc).bind ?_
      rintro ok b₂ ⟨d, u, rfl, -, hset, -⟩
      refine .ite (fun _ => .pure trivial) fun hok => ?_
      obtain ⟨-, hp⟩ := hset (by simpa using hok)
      obtain ⟨n, hn⟩ := hp.current
      refine issues_revalidate (b := withUpdate b₁ d u) hp.durable (.inl ?_)
      show u.current.state = _
      rw [hn]
      rfl
    obtain ⟨p, hp⟩ := hj.wellFormed.exists_state
    rw [hvalid]
    cases haction : BootRecoveryPolicy.action true b₁.ram.update.current.state with
    | failSafe => exact .pure trivial
    | normal => exact .pure trivial
    | abort => exact habort _
    | revalidate =>
      refine hrest _ fun hne => ?_
      rw [hp] at haction hne ⊢
      revert haction hne
      cases p <;> simp [BootRecoveryPolicy.action, BootUpdateState.code, Recovering]
    | pending =>
      refine hrest _ fun hne => ?_
      rw [hp] at haction hne ⊢
      revert haction hne
      cases p <;> simp [BootRecoveryPolicy.action, BootUpdateState.code, Recovering]

end BootUpdate

/-- `BootFlash_Init` issues no command. -/
theorem BootFlash.issues_init {R : CommandRel} :
    Issues R BootFlash.init (fun _ _ => True) b := by
  unfold BootFlash.init
  rw [Issues.bind_setFlash, Issues.bind_setFlash]
  unfold FlashDriver.init FlashDriver.setWindow
  refine Issues.bind (Q := fun _ _ => True) ?_ fun _ _ _ => ⟨.refl _, trivial⟩
  rw [Issues.bind_setFlash]
  refine .ite (fun _ => .pure trivial) fun _ => ?_
  rw [Issues.bind_setFlash]
  exact .pure trivial

/-- A whole boot writes to a slot for the sake of recovery only. -/
theorem BootManager.issues_run :
    Issues (WriteAhead Recovering) BootManager.run (fun _ _ => True) b := by
  unfold BootManager.run
  have hinit : Issues (WriteAhead Recovering) BootManager.init (fun _ _ => True) b := by
    unfold BootManager.init
    rw [Issues.bind_get]
    refine BootFlash.issues_init.bind fun _ b₁ _ => ?_
    refine BootUpdate.issues_loadRecoveryState.bind fun _ b₂ _ => ?_
    refine (BootLifecycle.stored_init upkeep_closed.stored).ahead.bind fun _ b₃ _ => ?_
    exact ⟨.refl _, trivial⟩
  refine hinit.bind fun _ b₁ _ => ?_
  exact (booting_afterInit upkeep_closed.booting).ahead.mono fun _ _ _ => trivial

end
