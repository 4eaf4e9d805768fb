import BootloaderV2.Facade
import BootloaderV2.SlotFlash

/-!
# Where the driver writes

Calls of the facade with arbitrary words as arguments, in any order after `BootFlash_Init`, while
commands complete, fail or are cut.  Every command lies in the target slot of the last successful
configuration or in the sector of the record the call is about.
-/

open BootConfig NorFlash CrashM

namespace BootSlot

/-- `BootSlot_IsValidId` on any word. -/
def isValidId32 (id : Word) : Bool := id == 0 || id == 1

/-- `BootSlot_ContainsRange`. -/
def containsRange32 (id : SlotId) (address length : Word) : Bool :=
  match getDescriptor id with
  | none => false
  | some d => within32 d.baseAddress d.endAddress address length

theorem containsRange32_eq {id : SlotId} {address length : Word} :
    containsRange32 id address length = containsRange id address.toNat length.toNat := by
  unfold containsRange32 containsRange
  match id with
  | none => rfl
  | some .a => exact within32_eq (by decide) (by decide)
  | some .b => exact within32_eq (by decide) (by decide)

end BootSlot

/-- `FlashDriver_Init` on any words; the command controller is taken to be idle. -/
def FlashDriver.init32 (active target : Word) : BootM Bool := do
  setWindow 0 0
  if 1 < target ∨ target = active ∨ (1 < active ∧ active ≠ 0x7FFFFFFF) then return false
  let start := if target = 0 then slotABaseAddress else slotBBaseAddress
  setWindow start (start + slotSize)
  return true

namespace BootFlash

def configureSlots32 (active target : Word) : BootM Bool := do
  BootM.setFlash fun f => { f with activeSlot := none, targetSlot := none }
  let ram ← BootM.getRam
  if !apiValid ram.flash || !BootSlot.isValidId32 target || active == target ||
      (!BootSlot.isValidId32 active && active != SlotId.unknownCode) then return false
  if !(← FlashDriver.init32 active target) then return false
  BootM.setFlash fun f => { f with activeSlot := .ofCode active, targetSlot := .ofCode target }
  return true

def isRangeValid32 (f : State) (address size : Word) : Bool :=
  f.targetSlot != f.activeSlot && f.targetSlot.isSome &&
    BootSlot.containsRange32 f.targetSlot address size

def erase32 (address size : Word) : BootM Bool := do
  let ram ← BootM.getRam
  if !apiValid ram.flash || !isRangeValid32 ram.flash address size ||
      size != BitVec.ofNat 32 flashSectorSize ||
      address &&& BitVec.ofNat 32 (flashSectorSize - 1) != 0 then return false
  FlashDriver.erase32 address size

def program32 (address source : Word) (data : Nat → Byte) (size : Word) : BootM Bool := do
  let ram ← BootM.getRam
  if !apiValid ram.flash || !isRangeValid32 ram.flash address size || source == 0 ||
      address &&& BitVec.ofNat 32 (flashPhraseSize - 1) != 0 ||
      size &&& BitVec.ofNat 32 (flashPhraseSize - 1) != 0 then return false
  FlashDriver.program32 address source data size

end BootFlash

namespace BootJournalStorage

def erase32 (copy : Word) : BootM Bool := do
  let ram ← BootM.getRam
  if !BootFlash.apiValid ram.flash || !decide (copy < 2) then return false
  FlashDriver.journalErase32 copy

def program32 (copy offset source : Word) (data : Nat → Byte) (size : Word) : BootM Bool := do
  let ram ← BootM.getRam
  if !BootFlash.apiValid ram.flash || !decide (copy < 2) then return false
  FlashDriver.journalProgram32 copy offset source data size

end BootJournalStorage

namespace BootMetadataStorage

def erase32 (slot copy : Word) : BootM Bool := do
  let ram ← BootM.getRam
  if !BootFlash.apiValid ram.flash || !BootSlot.isValidId32 slot || !decide (copy < 2) then
    return false
  FlashDriver.metadataErase32 slot copy

def program32 (slot copy offset source : Word) (data : Nat → Byte) (size : Word) : BootM Bool := do
  let ram ← BootM.getRam
  if !BootFlash.apiValid ram.flash || !BootSlot.isValidId32 slot || !decide (copy < 2) then
    return false
  FlashDriver.metadataProgram32 slot copy offset source data size

end BootMetadataStorage

/-! ## Calls -/

namespace Facade

/-- A call of the facade; `data` are the bytes at `source`. -/
inductive Call where
  | configureSlots (active target : Word)
  | erase (address size : Word)
  | program (address source : Word) (data : Nat → Byte) (size : Word)
  | journalErase (copy : Word)
  | journalProgram (copy offset source : Word) (data : Nat → Byte) (size : Word)
  | metadataErase (slot copy : Word)
  | metadataProgram (slot copy offset source : Word) (data : Nat → Byte) (size : Word)

namespace Call

/-- The call as the code computes it, on words. -/
def run : Call → BootM Bool
  | configureSlots active target => BootFlash.configureSlots32 active target
  | erase address size => BootFlash.erase32 address size
  | program address source data size => BootFlash.program32 address source data size
  | journalErase copy => BootJournalStorage.erase32 copy
  | journalProgram copy offset source data size =>
    BootJournalStorage.program32 copy offset source data size
  | metadataErase slot copy => BootMetadataStorage.erase32 slot copy
  | metadataProgram slot copy offset source data size =>
    BootMetadataStorage.program32 slot copy offset source data size

open FlashDriver (copyOf slotOf checked)

/-- The call on natural numbers, where no sum wraps around; only slots and copies that exist get
    past the facade. -/
def exact : Call → BootM Bool
  | configureSlots active target => BootFlash.configureSlots32 active target
  | erase address size => BootFlash.erase address.toNat size.toNat
  | program address source data size =>
    checked source size.toNat (BootFlash.program address.toNat data size.toNat)
  | journalErase copy =>
    match copyOf copy with
    | some k => BootJournalStorage.erase k
    | none => return false
  | journalProgram copy offset source data size =>
    match copyOf copy with
    | some k => checked source size.toNat
        (BootJournalStorage.program k offset.toNat data size.toNat)
    | none => return false
  | metadataErase slot copy =>
    match slotOf slot, copyOf copy with
    | some s, some k => BootMetadataStorage.erase s k
    | _, _ => return false
  | metadataProgram slot copy offset source data size =>
    match slotOf slot, copyOf copy with
    | some s, some k => checked source size.toNat
        (BootMetadataStorage.program s k offset.toNat data size.toNat)
    | _, _ => return false

end Call

variable {b : Board}

theorem lt_two_iff {w : Word} : w < 2 ↔ ¬ 1 < w := by
  rw [BitVec.lt_def, BitVec.lt_def, show (2 : Word).toNat = 2 from rfl,
    show (1 : Word).toNat = 1 from rfl]
  omega

theorem isValidId32_code (s : Slot) : BootSlot.isValidId32 s.code = true := by cases s <;> rfl

theorem isValidId32_of_lt {w : Word} (h : 1 < w) : BootSlot.isValidId32 w = false := by
  unfold BootSlot.isValidId32
  rw [Bool.or_eq_false_iff, beq_eq_false_iff_ne, beq_eq_false_iff_ne]
  constructor
  · rintro rfl
    exact absurd h (by decide)
  · rintro rfl
    exact absurd h (by decide)

theorem isRangeValid32_eq {f : BootFlash.State} {address size : Word} :
    BootFlash.isRangeValid32 f address size =
      BootFlash.isRangeValid f address.toNat size.toNat := by
  unfold BootFlash.isRangeValid32 BootFlash.isRangeValid
  rw [BootSlot.containsRange32_eq]

theorem erase32_eq {address size : Word} (h : b.ram.flash.Bounded) :
    BootFlash.erase32 address size b = BootFlash.erase address.toNat size.toNat b := by
  have hmask : (address &&& BitVec.ofNat 32 (flashSectorSize - 1) != 0) =
      (address.toNat % flashSectorSize != 0) := FlashDriver.mask_ne_zero 12 (by decide)
  have hsize : (size != BitVec.ofNat 32 flashSectorSize) = (size.toNat != flashSectorSize) := by
    rw [Bool.eq_iff_iff, bne_iff_ne, bne_iff_ne]
    exact not_congr BitVec.toNat_inj.symm
  show (if !BootFlash.apiValid b.ram.flash || !BootFlash.isRangeValid32 b.ram.flash address size ||
      size != BitVec.ofNat 32 flashSectorSize ||
      address &&& BitVec.ofNat 32 (flashSectorSize - 1) != 0 then _ else _ : BootM Bool) b =
    (if !BootFlash.apiValid b.ram.flash ||
      !BootFlash.isRangeValid b.ram.flash address.toNat size.toNat ||
      size.toNat != flashSectorSize || address.toNat % flashSectorSize != 0
      then _ else _ : BootM Bool) b
  rw [isRangeValid32_eq, hmask, hsize]
  split
  · rfl
  · exact FlashDriver.erase32_eq h

theorem program32_eq {address source size : Word} {data : Nat → Byte} (h : b.ram.flash.Bounded) :
    BootFlash.program32 address source data size b =
      FlashDriver.checked source size.toNat (BootFlash.program address.toNat data size.toNat) b := by
  have hmask : ∀ w : Word, (w &&& BitVec.ofNat 32 (flashPhraseSize - 1) != 0) =
      (w.toNat % flashPhraseSize != 0) := fun w => FlashDriver.mask_ne_zero 3 (by decide)
  -- a null pointer does not point into SRAM
  have hnull : source = 0 → FlashDriver.sourceOk source.toNat size.toNat = false := by
    rintro rfl
    unfold FlashDriver.sourceOk
    rw [decide_eq_false (by decide : ¬ sramBaseAddress ≤ (0 : Word).toNat)]
    rfl
  show (if !BootFlash.apiValid b.ram.flash || !BootFlash.isRangeValid32 b.ram.flash address size ||
      source == 0 || address &&& BitVec.ofNat 32 (flashPhraseSize - 1) != 0 ||
      size &&& BitVec.ofNat 32 (flashPhraseSize - 1) != 0 then _ else _ : BootM Bool) b = _
  rw [isRangeValid32_eq, hmask, hmask]
  unfold FlashDriver.checked
  by_cases hsource : FlashDriver.sourceOk source.toNat size.toNat = true
  · have hne : (source == 0) = false := by
      rw [beq_eq_false_iff_ne]
      exact fun h0 => absurd (hnull h0) (by simp [hsource])
    rw [if_pos hsource, hne, Bool.or_false]
    show _ = (if !BootFlash.apiValid b.ram.flash ||
      !BootFlash.isRangeValid b.ram.flash address.toNat size.toNat ||
      address.toNat % flashPhraseSize != 0 || size.toNat % flashPhraseSize != 0
      then _ else _ : BootM Bool) b
    split
    · rfl
    · rw [FlashDriver.program32_eq h, if_pos hsource]
  · rw [if_neg hsource]
    split
    · rfl
    · rw [FlashDriver.program32_eq h, if_neg hsource]
      rfl

open FlashDriver

theorem checked_gate {c : BootFlash.State → Bool} {s : Word} {n : Nat} {m : BootM Bool} :
    checked s n (do
      let ram ← BootM.getRam
      if c ram.flash then return false
      m) b = (if c b.ram.flash then pure false else checked s n m : BootM Bool) b := by
  unfold checked
  split
  · rfl
  · split <;> rfl

theorem journalErase32_eq {copy : Word} :
    BootJournalStorage.erase32 copy b = (Call.journalErase copy).exact b := by
  show (if !BootFlash.apiValid b.ram.flash || !decide (copy < 2) then _ else _ : BootM Bool) b =
    (match copyOf copy with
      | some k => BootJournalStorage.erase k
      | none => return false : BootM Bool) b
  rcases copyOf_cases copy with ⟨hlt, hc⟩ | ⟨k, hlt, -, hc⟩
  · rw [decide_eq_false (fun h => lt_two_iff.1 h hlt), hc, if_pos (by simp)]
  · rw [decide_eq_true (lt_two_iff.2 hlt), hc, Bool.not_true, Bool.or_false]
    show _ = (if !BootFlash.apiValid b.ram.flash then _ else _ : BootM Bool) b
    split
    · rfl
    · rw [FlashDriver.journalErase32_eq, hc]

theorem journalProgram32_eq {copy offset source size : Word} {data : Nat → Byte} :
    BootJournalStorage.program32 copy offset source data size b =
      (Call.journalProgram copy offset source data size).exact b := by
  show (if !BootFlash.apiValid b.ram.flash || !decide (copy < 2) then _ else _ : BootM Bool) b =
    (match copyOf copy with
      | some k => checked source size.toNat
          (BootJournalStorage.program k offset.toNat data size.toNat)
      | none => return false : BootM Bool) b
  rcases copyOf_cases copy with ⟨hlt, hc⟩ | ⟨k, hlt, -, hc⟩
  · rw [decide_eq_false (fun h => lt_two_iff.1 h hlt), hc, if_pos (by simp)]
  · rw [decide_eq_true (lt_two_iff.2 hlt), hc, Bool.not_true, Bool.or_false]
    refine Eq.trans ?_ (checked_gate (c := fun f => !BootFlash.apiValid f) (s := source)
      (m := FlashDriver.journalProgram k offset.toNat data size.toNat)).symm
    split
    · rfl
    · rw [FlashDriver.journalProgram32_eq, hc]

theorem metadataErase32_eq {slot copy : Word} :
    BootMetadataStorage.erase32 slot copy b = (Call.metadataErase slot copy).exact b := by
  show (if !BootFlash.apiValid b.ram.flash || !BootSlot.isValidId32 slot || !decide (copy < 2)
      then _ else _ : BootM Bool) b =
    (match slotOf slot, copyOf copy with
      | some s, some k => BootMetadataStorage.erase s k
      | _, _ => return false : BootM Bool) b
  rcases slotOf_cases slot with ⟨hlt, hc⟩ | ⟨s, -, rfl, hc⟩
  · rw [isValidId32_of_lt hlt, hc, if_pos (by simp)]
  rcases copyOf_cases copy with ⟨hlt, hc'⟩ | ⟨k, hlt, -, hc'⟩
  · rw [decide_eq_false (fun h => lt_two_iff.1 h hlt), hc, hc', if_pos (by simp)]
  · rw [isValidId32_code, decide_eq_true (lt_two_iff.2 hlt), hc, hc', Bool.not_true,
      Bool.or_false, Bool.or_false]
    show _ = (if !BootFlash.apiValid b.ram.flash then _ else _ : BootM Bool) b
    split
    · rfl
    · rw [FlashDriver.metadataErase32_eq, hc, hc']

theorem metadataProgram32_eq {slot copy offset source size : Word} {data : Nat → Byte} :
    BootMetadataStorage.program32 slot copy offset source data size b =
      (Call.metadataProgram slot copy offset source data size).exact b := by
  show (if !BootFlash.apiValid b.ram.flash || !BootSlot.isValidId32 slot || !decide (copy < 2)
      then _ else _ : BootM Bool) b =
    (match slotOf slot, copyOf copy with
      | some s, some k => checked source size.toNat
          (BootMetadataStorage.program s k offset.toNat data size.toNat)
      | _, _ => return false : BootM Bool) b
  rcases slotOf_cases slot with ⟨hlt, hc⟩ | ⟨s, -, rfl, hc⟩
  · rw [isValidId32_of_lt hlt, hc, if_pos (by simp)]
  rcases copyOf_cases copy with ⟨hlt, hc'⟩ | ⟨k, hlt, -, hc'⟩
  · rw [decide_eq_false (fun h => lt_two_iff.1 h hlt), hc, hc', if_pos (by simp)]
  · rw [isValidId32_code, decide_eq_true (lt_two_iff.2 hlt), hc, hc', Bool.not_true,
      Bool.or_false, Bool.or_false]
    refine Eq.trans ?_ (checked_gate (c := fun f => !BootFlash.apiValid f) (s := source)
      (m := FlashDriver.metadataProgram s k offset.toNat data size.toNat)).symm
    split
    · rfl
    · rw [FlashDriver.metadataProgram32_eq, hc, hc']

/-- No range check overflows: on words a call does what it does on natural numbers. -/
theorem Call.run_eq (c : Call) (h : b.ram.flash.Bounded) : c.run b = c.exact b := by
  cases c with
  | configureSlots active target => rfl
  | erase address size => exact erase32_eq h
  | program address source data size => exact program32_eq h
  | journalErase copy => exact journalErase32_eq
  | journalProgram copy offset source data size => exact journalProgram32_eq
  | metadataErase slot copy => exact metadataErase32_eq
  | metadataProgram slot copy offset source data size => exact metadataProgram32_eq

/-! ## The commands of a call -/

/-- The command erases one aligned sector. -/
def ErasesSector : Command → Prop
  | .erase address size => address % flashSectorSize = 0 ∧ size = flashSectorSize
  | .program _ _ _ => False

/-- The command programs one aligned phrase. -/
def ProgramsPhrase : Command → Prop
  | .erase _ _ => False
  | .program address size _ => address % flashPhraseSize = 0 ∧ size = flashPhraseSize

/-- The range of the command lies in that of `size` bytes at `base`. -/
def Inside (cmd : Command) (base size : Nat) : Prop :=
  base ≤ cmd.address ∧ cmd.address + cmd.size ≤ base + size

/-- The commands a call may issue when `configured` are the arguments of the last successful
    configuration. -/
def Call.Allows (configured : Option (Word × Word)) (c : Call) (cmd : Command) : Prop :=
  match c with
  | configureSlots _ _ => False
  | erase _ _ => ErasesSector cmd ∧ ∃ (active : SlotId) (t : Slot),
      configured = some (active.code, t.code) ∧ active ≠ some t ∧ Inside cmd t.base slotSize
  | program _ _ _ _ => ProgramsPhrase cmd ∧ ∃ (active : SlotId) (t : Slot),
      configured = some (active.code, t.code) ∧ active ≠ some t ∧ Inside cmd t.base slotSize
  | journalErase copy => ErasesSector cmd ∧ ∃ k : Fin 2, copy = BitVec.ofNat 32 k.val ∧
      Inside cmd (FlashDriver.journalAddress k) flashSectorSize
  | journalProgram copy _ _ _ _ => ProgramsPhrase cmd ∧ ∃ k : Fin 2,
      copy = BitVec.ofNat 32 k.val ∧ Inside cmd (FlashDriver.journalAddress k) journalRecordSize
  | metadataErase slot copy => ErasesSector cmd ∧ ∃ (s : Slot) (k : Fin 2), slot = s.code ∧
      copy = BitVec.ofNat 32 k.val ∧ Inside cmd (FlashDriver.metadataAddress s k) flashSectorSize
  | metadataProgram slot copy _ _ _ _ => ProgramsPhrase cmd ∧ ∃ (s : Slot) (k : Fin 2),
      slot = s.code ∧ copy = BitVec.ofNat 32 k.val ∧
      Inside cmd (FlashDriver.metadataAddress s k) metadataRecordSize

variable {R : CommandRel} {address size start stop : Nat} {data : Nat → Byte}

/-- A call that leaves all variables as they are. -/
def SameRam (b b' : Board) : Prop := ∃ d, b' = b.setDev d

/-- A storage puts the window of the slot back. -/
theorem issues_withWindow {m : BootM Bool}
    (h : ∀ b', b'.dev = b.dev → b'.ram.flash.targetStart = start → b'.ram.flash.targetEnd = stop →
      Issues R m (fun _ b'' => SameRam b' b'') b') :
    Issues R (withWindow start stop m) (fun _ b' => SameRam b b') b := by
  unfold withWindow setWindow
  rw [Issues.bind_getRam, Issues.bind_setFlash]
  have hwindow := h { b with ram := { b.ram with flash :=
    { b.ram.flash with targetStart := start, targetEnd := stop } } } rfl rfl rfl
  refine Issues.bind hwindow ?_
  rintro ok b' ⟨d, rfl⟩
  rw [Issues.bind_setFlash]
  exact .pure ⟨d, rfl⟩

theorem issues_windowErase
    (hR : ∀ cmd m m', ErasesSector cmd → Inside cmd start flashSectorSize → R cmd m m') :
    Issues R (withWindow start (start + flashSectorSize) (FlashDriver.erase start flashSectorSize))
      (fun _ b' => SameRam b b') b := by
  refine issues_withWindow fun b' hdev hs he => ?_
  refine (FlashDriver.issues_erase fun n hrange hsize haligned => ?_).mono ?_
  · exact hR _ _ _ ⟨haligned, hsize⟩ ⟨le_refl _, le_refl _⟩
  · rintro ok b'' ⟨d, rfl, -⟩
    exact ⟨d, rfl⟩

theorem phrase_add {a o : Nat} (ha : a % flashPhraseSize = 0) (ho : o % flashPhraseSize = 0) :
    (a + o) % flashPhraseSize = 0 :=
  Nat.mod_eq_zero_of_dvd (Nat.dvd_add (Nat.dvd_of_mod_eq_zero ha) (Nat.dvd_of_mod_eq_zero ho))

theorem issues_driverProgram {limit : Nat} (hstart : b.ram.flash.targetStart = start)
    (hstop : b.ram.flash.targetEnd = start + limit)
    (hR : ∀ cmd m m', ProgramsPhrase cmd → Inside cmd start limit → R cmd m m') :
    Issues R (FlashDriver.program address data size) (fun _ b' => SameRam b b') b := by
  refine (FlashDriver.issues_program fun m n o p _ hrange ha ho hle => ?_).mono ?_
  · obtain ⟨-, hlo, hhi⟩ := FlashDriver.rangeOk_iff.1 hrange
    rw [hstart] at hlo
    rw [hstop] at hhi
    refine hR _ _ _ ⟨?_, rfl⟩ ⟨?_, ?_⟩
    · exact phrase_add ha ho
    · exact le_trans hlo (Nat.le_add_right _ _)
    · show address + o + flashPhraseSize ≤ start + limit
      omega
  · rintro ok b' ⟨d, rfl, -⟩
    exact ⟨d, rfl⟩

theorem issues_windowProgram {limit : Nat}
    (hR : ∀ cmd m m', ProgramsPhrase cmd → Inside cmd start limit → R cmd m m') :
    Issues R (withWindow start (start + limit) (FlashDriver.program address data size))
      (fun _ b' => SameRam b b') b :=
  issues_withWindow fun _ _ hs he => issues_driverProgram hs he hR

theorem issues_checked {source : Word} {n : Nat} {m : BootM Bool}
    (h : Issues R m (fun _ b' => SameRam b b') b) :
    Issues R (checked source n m) (fun _ b' => SameRam b b') b :=
  .ite (fun _ => h) fun _ => .pure ⟨b.dev, rfl⟩

/-- The facade knows a target slot only from the last successful configuration. -/
structure Keeps (configured : Option (Word × Word)) (f : BootFlash.State) : Prop where
  bounded : f.Bounded
  slots : f.targetSlot = none ∨ ∃ t, f.targetSlot = some t ∧ f.activeSlot ≠ some t ∧
    configured = some (f.activeSlot.code, t.code)

/-- A range the facade lets through lies in the configured target. -/
theorem Keeps.target {configured : Option (Word × Word)} {f : BootFlash.State}
    (h : Keeps configured f) (hvalid : BootFlash.isRangeValid f address size = true) :
    ∃ (active : SlotId) (t : Slot), configured = some (active.code, t.code) ∧ active ≠ some t ∧
      t.base ≤ address ∧ address + size ≤ t.base + slotSize := by
  simp only [BootFlash.isRangeValid, Bool.and_eq_true] at hvalid
  rcases h.slots with hnone | ⟨t, ht, hne, hc⟩
  · rw [hnone] at hvalid
    exact absurd hvalid.1.2 (by decide)
  · rw [ht, BootFlash.containsRange_iff] at hvalid
    exact ⟨f.activeSlot, t, hc, hne, hvalid.2.2⟩

variable {configured : Option (Word × Word)}

/-- Erasing through the facade. -/
theorem issues_erase (h : Keeps configured b.ram.flash) (a n : Word) :
    Issues (fun cmd _ _ => (Call.erase a n).Allows configured cmd) (BootFlash.erase address size)
      (fun _ b' => SameRam b b') b := by
  unfold BootFlash.erase
  rw [Issues.bind_getRam]
  refine .ite (fun _ => .pure ⟨b.dev, rfl⟩) fun hc => ?_
  simp only [Bool.or_eq_true, not_or, Bool.not_eq_true', Bool.not_eq_false] at hc
  obtain ⟨active, t, hconf, hne, hrange⟩ := h.target hc.1.1.2
  refine (FlashDriver.issues_erase fun k _ hsize haligned => ?_).mono ?_
  · exact ⟨⟨haligned, hsize⟩, active, t, hconf, hne, hrange⟩
  · rintro ok b' ⟨d, rfl, -⟩
    exact ⟨d, rfl⟩

/-- Programming through the facade. -/
theorem issues_program (h : Keeps configured b.ram.flash) (a source n : Word) :
    Issues (fun cmd _ _ => (Call.program a source data n).Allows configured cmd)
      (BootFlash.program address data size) (fun _ b' => SameRam b b') b := by
  unfold BootFlash.program
  rw [Issues.bind_getRam]
  refine .ite (fun _ => .pure ⟨b.dev, rfl⟩) fun hc => ?_
  simp only [Bool.or_eq_true, not_or, Bool.not_eq_true', Bool.not_eq_false] at hc
  obtain ⟨active, t, hconf, hne, hlo, hhi⟩ := h.target hc.1.1.2
  refine (FlashDriver.issues_program fun m k o p _ _ ha ho hle => ?_).mono ?_
  · refine ⟨⟨?_, rfl⟩, active, t, hconf, hne, ?_, ?_⟩
    · exact phrase_add ha ho
    · exact le_trans hlo (Nat.le_add_right _ _)
    · show address + o + flashPhraseSize ≤ _
      omega
  · rintro ok b' ⟨d, rfl, -⟩
    exact ⟨d, rfl⟩

/-- A new configuration names two slots that differ, or leaves none. -/
theorem issues_configureSlots (h : Keeps configured b.ram.flash) (active target : Word) :
    Issues Nothing (BootFlash.configureSlots32 active target)
      (fun ok b' => Keeps (if ok then some (active, target) else configured) b'.ram.flash) b := by
  have hnone : ∀ {f : BootFlash.State}, f.Bounded → f.targetSlot = none →
      Keeps (if false = true then some (active, target) else configured) f :=
    fun hb ht => ⟨hb, .inl ht⟩
  unfold BootFlash.configureSlots32
  rw [Issues.bind_setFlash, Issues.bind_getRam]
  refine .ite (fun _ => .pure (hnone ⟨h.bounded.1, h.bounded.2⟩ rfl)) fun hc => ?_
  simp only [Bool.or_eq_true, not_or, Bool.not_eq_true', Bool.not_eq_false, Bool.and_eq_true,
    not_and, bne_iff_ne, ne_eq, not_not, beq_iff_eq] at hc
  obtain ⟨⟨⟨-, htarget⟩, hne⟩, hactive⟩ := hc
  obtain ⟨t, rfl⟩ : ∃ t : Slot, target = t.code := by
    rcases slotOf_cases target with ⟨hlt, -⟩ | ⟨t, -, ht, -⟩
    · rw [isValidId32_of_lt hlt] at htarget
      cases htarget
    · exact ⟨t, ht⟩
  obtain ⟨s, rfl⟩ : ∃ s : SlotId, active = s.code := by
    rcases slotOf_cases active with ⟨hlt, -⟩ | ⟨s, -, hs, -⟩
    · exact ⟨none, hactive (isValidId32_of_lt hlt)⟩
    · exact ⟨some s, hs⟩
  have hapart : s ≠ some t := by
    rintro rfl
    exact hne rfl
  refine Issues.bind (Q := fun ok b' => b'.ram.flash.targetSlot = none ∧ b'.ram.flash.Bounded) ?_ ?_
  · unfold FlashDriver.init32 FlashDriver.setWindow
    rw [Issues.bind_setFlash]
    refine .ite (fun _ => .pure ⟨rfl, Nat.le_refl _, Nat.zero_le _⟩) fun _ => ?_
    dsimp only
    rw [Issues.bind_setFlash]
    refine .pure ⟨rfl, Nat.le_add_right _ _, ?_⟩
    show (if t.code = 0 then slotABaseAddress else slotBBaseAddress) + slotSize ≤ _
    split <;> decide
  · rintro ok b' ⟨ht, hbounded⟩
    refine .ite (fun _ => .pure (hnone hbounded ht)) fun _ => ?_
    rw [Issues.bind_setFlash]
    refine .pure ⟨⟨hbounded.1, hbounded.2⟩, .inr ⟨t, SlotId.ofCode_slot t, ?_, ?_⟩⟩
    · show SlotId.ofCode s.code ≠ some t
      rw [SlotId.ofCode_code]
      exact hapart
    · show some (s.code, t.code) = some ((SlotId.ofCode s.code).code, t.code)
      rw [SlotId.ofCode_code]

/-! ## Runs of calls -/

/-- The last successful configuration once the call has returned `ok`. -/
def Call.configuredAfter (c : Call) (ok : Bool) (configured : Option (Word × Word)) :
    Option (Word × Word) :=
  match c with
  | configureSlots active target => if ok then some (active, target) else configured
  | _ => configured

/-- A call that leaves the variables alone leaves the configuration alone. -/
theorem Keeps.same {b' : Board} (h : Keeps configured b.ram.flash) (hs : SameRam b b') :
    Keeps configured b'.ram.flash ∧ b'.ram.flash = b.ram.flash := by
  obtain ⟨d, rfl⟩ := hs
  exact ⟨h, rfl⟩

theorem issues_gated {m : BootM Bool} (h : Issues R m (fun _ b' => SameRam b b') b) :
    Issues R (do
      let ram ← BootM.getRam
      if !BootFlash.apiValid ram.flash then return false
      m) (fun _ b' => SameRam b b') b := by
  rw [Issues.bind_getRam]
  exact .ite (fun _ => .pure ⟨b.dev, rfl⟩) fun _ => h

/-- One call: its commands are allowed, and only a configuration changes the variables. -/
theorem issues_call (c : Call) (h : Keeps configured b.ram.flash) :
    Issues (fun cmd _ _ => c.Allows configured cmd) c.exact
      (fun ok b' => Keeps (c.configuredAfter ok configured) b'.ram.flash ∧
        ((∀ active target, c ≠ .configureSlots active target) → b'.ram.flash = b.ram.flash)) b := by
  have hsame : ∀ {m : BootM Bool}, (∀ ok, c.configuredAfter ok configured = configured) →
      Issues (fun cmd _ _ => c.Allows configured cmd) m (fun _ b' => SameRam b b') b →
      Issues (fun cmd _ _ => c.Allows configured cmd) m
        (fun ok b' => Keeps (c.configuredAfter ok configured) b'.ram.flash ∧
          ((∀ active target, c ≠ .configureSlots active target) → b'.ram.flash = b.ram.flash)) b := by
    intro m hc hm
    refine hm.mono fun ok b' hs => ?_
    rw [hc]
    exact ⟨(h.same hs).1, fun _ => (h.same hs).2⟩
  have hno : ∀ {R : CommandRel} {b : Board},
      Issues R (pure false : BootM Bool) (fun _ b' => SameRam b b') b := .pure ⟨_, rfl⟩
  cases c with
  | configureSlots active target =>
    refine (issues_configureSlots h active target).of_nothing.mono fun ok b' hk => ⟨hk, fun hne => ?_⟩
    exact absurd rfl (hne active target)
  | erase address size => exact hsame (fun _ => rfl) (issues_erase h _ _)
  | program address source data size =>
    exact hsame (fun _ => rfl) (issues_checked (issues_program h _ _ _))
  | journalErase copy =>
    refine hsame (fun _ => rfl) ?_
    unfold Call.exact
    rcases copyOf_cases copy with ⟨-, hc⟩ | ⟨k, -, hk, hc⟩ <;> simp only [hc]
    · exact hno
    · exact issues_gated (issues_windowErase fun _ _ _ ha hin => ⟨ha, k, hk, hin⟩)
  | journalProgram copy offset source data size =>
    refine hsame (fun _ => rfl) ?_
    unfold Call.exact
    rcases copyOf_cases copy with ⟨-, hc⟩ | ⟨k, -, hk, hc⟩ <;> simp only [hc]
    · exact hno
    · refine issues_checked (issues_gated ?_)
      unfold FlashDriver.journalProgram
      exact .ite (fun _ => hno) fun _ =>
        issues_windowProgram fun _ _ _ ha hin => ⟨ha, k, hk, hin⟩
  | metadataErase slot copy =>
    refine hsame (fun _ => rfl) ?_
    unfold Call.exact
    rcases slotOf_cases slot with ⟨-, hs⟩ | ⟨s, -, hcode, hs⟩ <;>
      rcases copyOf_cases copy with ⟨-, hc⟩ | ⟨k, -, hk, hc⟩ <;> simp only [hs, hc]
    · exact hno
    · exact hno
    · exact hno
    · exact issues_gated (issues_windowErase fun _ _ _ ha hin => ⟨ha, s, k, hcode, hk, hin⟩)
  | metadataProgram slot copy offset source data size =>
    refine hsame (fun _ => rfl) ?_
    unfold Call.exact
    rcases slotOf_cases slot with ⟨-, hs⟩ | ⟨s, -, hcode, hs⟩ <;>
      rcases copyOf_cases copy with ⟨-, hc⟩ | ⟨k, -, hk, hc⟩ <;> simp only [hs, hc]
    · exact hno
    · exact hno
    · exact hno
    · refine issues_checked (issues_gated ?_)
      unfold FlashDriver.metadataProgram
      exact .ite (fun _ => hno) fun _ =>
        issues_windowProgram fun _ _ _ ha hin => ⟨ha, s, k, hcode, hk, hin⟩

/-- Calls after `BootFlash_Init` on `b₀`, with the arguments of the last successful configuration. -/
inductive Reaches (b₀ : Board) : Option (Word × Word) → Board → Prop where
  | start {b : Board} (h : BootFlash.init b₀ = .done () b) : Reaches b₀ none b
  | call {configured : Option (Word × Word)} {b b' : Board} {ok : Bool} (c : Call)
    (h : Reaches b₀ configured b) (hc : c.run b = .done ok b') :
    Reaches b₀ (c.configuredAfter ok configured) b'

/-- After `BootFlash_Init` the driver has a window, for slot A, but the facade has no target. -/
theorem Reaches.keeps {b₀ : Board} (h : Reaches b₀ configured b) : Keeps configured b.ram.flash := by
  induction h with
  | start h =>
    cases h
    refine ⟨⟨Nat.le_add_right _ _, ?_⟩, .inl rfl⟩
    show slotABaseAddress + slotSize ≤ 0x1000000
    decide
  | call c _ hc ih =>
    rw [c.run_eq ih.bounded] at hc
    exact ((issues_call c ih).of_done hc).1

/-- A command is neither for the bootloader, nor for the active slot, nor for anything from 0x7E000
    on. -/
def Safe (configured : Option (Word × Word)) (cmd : Command) : Prop :=
  slotABaseAddress ≤ cmd.address ∧ cmd.address + cmd.size ≤ 0x7E000 ∧
    ∀ (active : Slot) (target : Word), configured = some (active.code, target) →
      ¬ cmd.Touches active

namespace Safe

variable {cmd : Command}

/-- The target is not the active slot. -/
theorem of_target {active : SlotId} {t : Slot} (hconf : configured = some (active.code, t.code))
    (hne : active ≠ some t) (h : Inside cmd t.base slotSize) : Safe configured cmd := by
  obtain ⟨hlo, hhi⟩ := h
  have hbase : slotABaseAddress ≤ t.base ∧ t.base + slotSize ≤ 0x7E000 := by cases t <;> decide
  refine ⟨by omega, by omega, fun s target hc htouch => ?_⟩
  have hs : active = some s := by
    rw [hconf] at hc
    exact SlotId.code_injective (Prod.mk.inj (Option.some.inj hc)).1
  have hapart : s.base + slotSize ≤ t.base ∨ t.base + slotSize ≤ s.base := by
    have hne' : s ≠ t := by
      rintro rfl
      exact hne hs
    cases s <;> cases t <;> first | exact absurd rfl hne' | decide
  have hlow := htouch.1
  have hhigh := htouch.2
  omega

theorem of_journal {k : Fin 2} {n : Nat} (hn : n ≤ flashSectorSize)
    (h : Inside cmd (FlashDriver.journalAddress k) n) : Safe configured cmd := by
  obtain ⟨hlo, hhi⟩ := h
  obtain ⟨hk, hk'⟩ := View.journalAddress_range k
  have hstart : slotABaseAddress ≤ journalCopy0Address := by decide
  have hend : metadataSlotACopy0Address ≤ 0x7E000 := by decide
  have hin : cmd.InJournal := ⟨k, hlo, by omega⟩
  exact ⟨by omega, by omega, fun active _ _ => hin.not_touches active⟩

theorem of_metadata {s : Slot} {k : Fin 2} {n : Nat} (hn : n ≤ flashSectorSize)
    (h : Inside cmd (FlashDriver.metadataAddress s k) n) : Safe configured cmd := by
  obtain ⟨hlo, hhi⟩ := h
  obtain ⟨hk, hk'⟩ := View.metadataAddress_range s k
  have hstart : slotABaseAddress ≤ metadataSlotACopy0Address := by decide
  have hend : BootFlash.recordsEnd ≤ 0x7E000 := by decide
  have hin : cmd.InMetadata := ⟨s, k, hlo, by omega⟩
  exact ⟨by omega, by omega, fun active _ _ => hin.not_touches active⟩

end Safe

theorem Call.Allows.safe {c : Call} {cmd : Command} (h : c.Allows configured cmd) :
    Safe configured cmd := by
  cases c with
  | configureSlots active target => exact absurd h id
  | erase address size =>
    obtain ⟨-, s, t, hc, hne, hi⟩ := h
    exact .of_target hc hne hi
  | program address source data size =>
    obtain ⟨-, s, t, hc, hne, hi⟩ := h
    exact .of_target hc hne hi
  | journalErase copy =>
    obtain ⟨-, k, -, hi⟩ := h
    exact .of_journal (le_refl _) hi
  | journalProgram copy offset source data size =>
    obtain ⟨-, k, -, hi⟩ := h
    exact .of_journal (by decide) hi
  | metadataErase slot copy =>
    obtain ⟨-, s, k, -, -, hi⟩ := h
    exact .of_metadata (le_refl _) hi
  | metadataProgram slot copy offset source data size =>
    obtain ⟨-, s, k, -, -, hi⟩ := h
    exact .of_metadata (by decide) hi

/-- Confinement.  After any calls, a call computes on words what it computes on natural numbers; its
    commands lie where the call and the last successful configuration allow; and every call but a
    configuration leaves the window of the driver as it was. -/
theorem confined (b₀ b : Board) (configured : Option (Word × Word))
    (h : Reaches b₀ configured b) (c : Call) :
    c.run b = c.exact b ∧
    Evolves (fun cmd _ _ => c.Allows configured cmd ∧ slotABaseAddress ≤ cmd.address ∧
      cmd.address + cmd.size ≤ 0x7E000 ∧
      ∀ (active : Slot) (target : Word), configured = some (active.code, target) →
        ¬ cmd.Touches active) b.dev (c.run b).state.dev ∧
    ∀ ok b', c.run b = .done ok b' → (∀ active target, c ≠ .configureSlots active target) →
      b'.ram.flash = b.ram.flash := by
  have heq := c.run_eq h.keeps.bounded
  have hcall := issues_call c h.keeps
  refine ⟨heq, ?_, fun ok b' hdone => ?_⟩
  · rw [heq]
    exact (hcall.weaken fun _ _ _ ha => ⟨ha, ha.safe⟩).evolves
  · rw [heq] at hdone
    exact (hcall.of_done hdone).2

/-- With slot A active and slot B configured: an erase of a journal sector is one command, outside
    slot A, and the window is that of slot B again. -/
theorem confined_journal : ∃ b b', Reaches Board.blank (some (Slot.code .a, Slot.code .b)) b ∧
    (Call.journalErase 1).run b = .done true b' ∧
    Evolves (fun cmd _ _ => (Call.journalErase 1).Allows (some (Slot.code .a, Slot.code .b)) cmd ∧
      ¬ cmd.Touches .a) b.dev b'.dev ∧ b'.dev.log.length = 1 ∧
    b'.ram.flash.targetStart = slotBBaseAddress := by
  obtain ⟨b₁, h₁⟩ : ∃ b, BootFlash.init Board.blank = .done () b := ⟨_, rfl⟩
  obtain ⟨b, h, hwindow, hready, hfates, hlog⟩ : ∃ b,
      (Call.configureSlots (Slot.code .a) (Slot.code .b)).run b₁ = .done true b ∧
      b.ram.flash.targetStart = slotBBaseAddress ∧ b.ram.flash.ready = true ∧
      b.dev.fates = [] ∧ b.dev.log = [] := by
    cases h₁
    exact ⟨_, rfl, rfl, rfl, rfl, rfl⟩
  have hreach : Reaches Board.blank (some (Slot.code .a, Slot.code .b)) b :=
    .call (.configureSlots (Slot.code .a) (Slot.code .b)) (.start h₁) h
  obtain ⟨hexact, hcommands, hrestored⟩ := confined _ b _ hreach (.journalErase 1)
  -- nothing disturbs the command
  have herase : Completes (BootJournalStorage.erase 1)
      (fun ok b' => ok = true ∧ b'.dev.log.length = 1) b :=
    BootJournalStorage.port.wp_erase hready ⟨rfl, congrArg (·.length + 1) hlog⟩
      (fun n _ hn => absurd hn (by simp [BootJournalStorage.port, hfates]))
      (fun n hn => absurd hn (by simp [BootJournalStorage.port, hfates]))
  obtain ⟨ok, b', hdone, rfl, hone⟩ := herase.exists_done
  have hrun := hexact.trans hdone
  rw [hrun] at hcommands
  refine ⟨b, b', hreach, hrun, hcommands.mono fun _ _ _ hc => ?_, hone, ?_⟩
  · exact ⟨hc.1, hc.2.2.2 .a _ rfl⟩
  · rw [hrestored _ _ hrun fun _ _ => nofun]
    exact hwindow

end Facade
