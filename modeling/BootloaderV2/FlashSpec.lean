import BootloaderV2.Flash

/-!
# What the flash functions do

Every driver call is a sequence of device commands inside the range it was asked for, and leaves the
variables of all modules alone.  The journal and metadata storages are ports to the sectors of their
two copies.
-/

open BootConfig NorFlash CrashM

namespace BootM

variable {Q : Unit → Board → Prop} {C : Board → Prop} {b : Board}

@[simp] theorem wp_setFlash {f : BootFlash.State → BootFlash.State} :
    wp (setFlash f) Q C b ↔ Q () { b with ram := { b.ram with flash := f b.ram.flash } } := Iff.rfl

@[simp] theorem wp_setUpdate {f : BootUpdate.State → BootUpdate.State} :
    wp (setUpdate f) Q C b ↔ Q () { b with ram := { b.ram with update := f b.ram.update } } :=
  Iff.rfl

@[simp] theorem wp_setLifecycle {f : BootLifecycle.State → BootLifecycle.State} :
    wp (setLifecycle f) Q C b ↔
      Q () { b with ram := { b.ram with lifecycle := f b.ram.lifecycle } } := Iff.rfl

@[simp] theorem wp_setManager {f : BootManager.State → BootManager.State} :
    wp (setManager f) Q C b ↔ Q () { b with ram := { b.ram with manager := f b.ram.manager } } :=
  Iff.rfl

@[simp] theorem wp_setProgramming {f : BootProgramming.Context → BootProgramming.Context} :
    wp (setProgramming f) Q C b ↔
      Q () { b with ram := { b.ram with programming := f b.ram.programming } } := Iff.rfl

@[simp] theorem wp_setSecurity {f : BootSecurity.State → BootSecurity.State} :
    wp (setSecurity f) Q C b ↔
      Q () { b with ram := { b.ram with security := f b.ram.security } } := Iff.rfl

@[simp] theorem wp_setUds {f : BootUds.State → BootUds.State} :
    wp (setUds f) Q C b ↔ Q () { b with ram := { b.ram with uds := f b.ram.uds } } := Iff.rfl

@[simp] theorem wp_setRetained {r : RetainedRecord} :
    wp (setRetained r) Q C b ↔ Q () { b with retained := r } := Iff.rfl

@[simp] theorem wp_getRam {Q : Ram → Board → Prop} : wp getRam Q C b ↔ Q b.ram b := Iff.rfl

@[simp] theorem wp_flash {Q : (Nat → Byte) → Board → Prop} : wp flash Q C b ↔ Q b.mem b := Iff.rfl

@[simp] theorem wp_device {α : Type} {m : CrashM (Device Note) α} {Q : α → Board → Prop} :
    wp (device m) Q C b ↔ wp m (fun a d => Q a (b.setDev d)) (fun d => C (b.setDev d)) b.dev :=
  wp_zoom

end BootM

namespace FlashDriver

variable {Q : Bool → Board → Prop} {C : Board → Prop} {b : Board}

theorem rangeOk_iff {f : BootFlash.State} {address size : Nat} :
    rangeOk f address size = true ↔
      size ≠ 0 ∧ f.targetStart ≤ address ∧ address + size ≤ f.targetEnd := by
  simp only [rangeOk, Bool.and_eq_true, decide_eq_true_eq]
  omega

/-- Sector erase inside the window. -/
theorem wp_erase {address : Nat} (hrange : rangeOk b.ram.flash address flashSectorSize = true)
    (haligned : address % flashSectorSize = 0)
    (hdone : Q true (b.setDev (b.dev.after (.erase address flashSectorSize) flashSectorSize)))
    (hcut : ∀ n, Fate.cut n ∈ b.dev.fates → C (b.setDev (b.dev.after
      (.erase address flashSectorSize) ((Command.erase address flashSectorSize).cutSize n))))
    (hfail : ∀ n, Fate.fail n ∈ b.dev.fates → Q false (b.setDev (b.dev.after
      (.erase address flashSectorSize) ((Command.erase address flashSectorSize).cutSize n)))) :
    wp (erase address flashSectorSize) Q C b := by
  unfold erase
  rw [wp_bind, BootM.wp_getRam, wp_ite, if_neg (by simp [hrange, haligned]), wp_bind,
    BootM.wp_device]
  refine wp_issue ?_ hcut ?_
  · have hread : ∀ i, i < flashSectorSize →
        (b.setDev (b.dev.after (.erase address flashSectorSize) flashSectorSize)).mem
          (address + i) = 0xFF := erase_effect_erased
    rw [wp_ite, if_neg (by decide), wp_bind, BootM.wp_flash]
    rw [← decide_eq_true hread] at hdone
    exact hdone
  · intro n hn
    rw [wp_ite, if_pos (by decide)]
    exact (wp_pure _).2 (hfail n hn)

/-- The first `p` bytes of `data` stand in a range that was erased. -/
structure Programmed (base : Nat) (data : Nat → Byte) (size : Nat) (m₀ : Nat → Byte) (p : Nat)
    (m : Nat → Byte) : Prop where
  outside : SameOutside base size m₀ m
  data : ∀ i, i < size → m (base + i) = if i < p then data i else 0xFF

theorem Programmed.skip {base size p n : Nat} {data m₀ m : Nat → Byte}
    (h : Programmed base data size m₀ p m) (hb : ∀ i, i < n → data (p + i) = 0xFF) :
    Programmed base data size m₀ (p + n) m := by
  refine ⟨h.outside, fun i hi => ?_⟩
  rw [h.data i hi]
  by_cases hp : i < p
  · rw [if_pos hp, if_pos (by omega)]
  · rw [if_neg hp]
    by_cases hn : i < p + n
    · rw [if_pos hn, ← hb (i - p) (by omega), Nat.add_sub_cancel' (by omega)]
    · rw [if_neg hn]

theorem Programmed.program {base size p width n : Nat} {data m₀ m : Nat → Byte}
    (h : Programmed base data size m₀ p m) (hs : p + width ≤ size) :
    Programmed base data size m₀ (p + min n width)
      ((Command.program (base + p) width fun i => data (p + i)).effect n m) := by
  refine ⟨?_, fun i hi => ?_⟩
  · refine h.outside.trans ((sameOutside_effect _ n m).mono (Nat.le_add_right _ _) ?_)
    simp only [Command.address, Command.size]
    omega
  · have he : Erased m (base + p) width := by
      intro j hj
      rw [Nat.add_assoc, h.data (p + j) (by omega), if_neg (by omega)]
    by_cases hin : p ≤ i ∧ i < p + min n width
    · rw [show base + i = base + p + (i - p) by omega, program_effect_erased he (by omega),
        if_pos (by omega)]
      congr 1
      omega
    · rw [program_effect_rest (by omega), h.data i hi]
      by_cases hp : i < p
      · rw [if_pos hp, if_pos (by omega)]
      · rw [if_neg hp, if_neg (by omega)]

/-- Programming erased phrases stores the data; what interrupts it leaves a prefix. -/
theorem wp_programLoop {R : Command → (Nat → Byte) → (Nat → Byte) → Prop} {e : Device Note}
    {address size : Nat} {data m₀ : Nat → Byte}
    (hstep : ∀ c m m' p q, address ≤ c.address → c.address + c.size ≤ address + size → p ≤ q →
      q ≤ size → Programmed address data size m₀ p m → Programmed address data size m₀ q m' →
      R c m m')
    {offset n : Nat} (hwindow : b.ram.flash.targetStart ≤ address ∧
      address + size ≤ b.ram.flash.targetEnd)
    (hn : offset + flashPhraseSize * n = size) (hev : Evolves R e b.dev)
    (hp : Programmed address data size m₀ offset b.dev.mem) :
    wp (programLoop address data offset n)
      (fun ok b' => ∃ d', b' = b.setDev d' ∧ Evolves R e d' ∧
        (∃ p, p ≤ size ∧ Programmed address data size m₀ p d'.mem) ∧
        (ok = true → Programmed address data size m₀ size d'.mem) ∧
        (ok = false → ¬ b.dev.Faultless))
      (fun b' => ∃ d', b' = b.setDev d' ∧ Evolves R e d' ∧
        (∃ p, p ≤ size ∧ Programmed address data size m₀ p d'.mem) ∧ ¬ b.dev.Uncut) b := by
  induction n generalizing b offset with
  | zero =>
    have ho : offset = size := by simpa using hn
    subst ho
    exact ⟨b.dev, rfl, hev, ⟨_, le_refl _, hp⟩, fun _ => hp, fun h => by cases h⟩
  | succ n ih =>
    have hphrase : flashPhraseSize = 8 := rfl
    rw [Nat.mul_succ] at hn
    have hfit : offset + flashPhraseSize ≤ size := by omega
    -- a phrase that reads back as the data lets the loop go on
    have hnext : ∀ d, Evolves R e d →
        Programmed address data size m₀ (offset + flashPhraseSize) d.mem →
        (b.dev.Faultless → d.Faultless) → (b.dev.Uncut → d.Uncut) →
        wp (verify (address + offset) (fun i => data (offset + i)) flashPhraseSize >>= fun ok =>
          if (!ok) = true then pure false
          else programLoop address data (offset + flashPhraseSize) n)
          (fun ok b' => ∃ d', b' = b.setDev d' ∧ Evolves R e d' ∧
            (∃ p, p ≤ size ∧ Programmed address data size m₀ p d'.mem) ∧
            (ok = true → Programmed address data size m₀ size d'.mem) ∧
            (ok = false → ¬ b.dev.Faultless))
          (fun b' => ∃ d', b' = b.setDev d' ∧ Evolves R e d' ∧
            (∃ p, p ≤ size ∧ Programmed address data size m₀ p d'.mem) ∧ ¬ b.dev.Uncut)
          (b.setDev d) := by
      intro d hd hpd hfault huncut
      have hrange : rangeOk b.ram.flash (address + offset) flashPhraseSize = true := by
        rw [rangeOk_iff]
        omega
      have hread : ∀ i, i < flashPhraseSize →
          (b.setDev d).mem (address + offset + i) = data (offset + i) := by
        intro i hi
        rw [Board.setDev_mem, Nat.add_assoc, hpd.data _ (by omega), if_pos (by omega)]
      rw [wp_bind]
      unfold verify
      rw [wp_bind, BootM.wp_getRam, wp_ite, if_neg (by simp [hrange]), wp_bind, BootM.wp_flash]
      refine (wp_pure _).2 ?_
      rw [decide_eq_true hread, wp_ite, if_neg (by decide)]
      refine wp_mono (ih hwindow (by omega) hd hpd) ?_ ?_
      · rintro ok b' ⟨d', rfl, hev', hst, htrue, hfalse⟩
        exact ⟨d', rfl, hev', hst, htrue, fun h hf => hfalse h (hfault hf)⟩
      · rintro b' ⟨d', rfl, hev', hst, hcut⟩
        exact ⟨d', rfl, hev', hst, fun hu => hcut (huncut hu)⟩
    -- one command of this phrase, of which `j` bytes are done
    have hcmd : ∀ j, Evolves R e (b.dev.after (.program (address + offset) flashPhraseSize
        fun i => data (offset + i)) j) ∧ Programmed address data size m₀
          (offset + min j flashPhraseSize) (b.dev.after (.program (address + offset)
            flashPhraseSize fun i => data (offset + i)) j).mem := by
      intro j
      have hj := hp.program (n := j) hfit
      refine ⟨hev.command _ j (hstep _ _ _ _ _ ?_ ?_ (Nat.le_add_right _ _) ?_ hp hj), hj⟩
      · exact Nat.le_add_right _ _
      · simp only [Command.address, Command.size]
        omega
      · omega
    unfold programLoop programPhrase
    rw [wp_bind, wp_ite]
    by_cases hblank : TwoCopy.blank (fun i => data (offset + i)) flashPhraseSize = true
    · rw [if_pos hblank]
      refine (wp_pure true).2 ?_
      rw [wp_ite, if_neg (by decide)]
      refine hnext b.dev hev (hp.skip ?_) id id
      simpa [TwoCopy.blank] using hblank
    · rw [if_neg hblank, BootM.wp_device]
      refine wp_issue ?_ ?_ ?_
      · rw [wp_ite, if_neg (by decide)]
        refine hnext _ (hcmd _).1 ?_ (fun hf => hf.after _ _) fun hu => hu.after _ _
        have := (hcmd flashPhraseSize).2
        rwa [Nat.min_self] at this
      · intro j hj
        exact ⟨_, rfl, (hcmd j).1, ⟨_, by omega, (hcmd j).2⟩, fun hu => hu j hj⟩
      · intro j hj
        rw [wp_ite, if_pos (by decide)]
        refine (wp_pure false).2 ⟨_, rfl, (hcmd j).1, ⟨_, by omega, (hcmd j).2⟩, ?_, ?_⟩
        · intro h
          cases h
        · intro _ hf
          exact hf j hj

/-- Programming one phrase of an erased range, as the storages do it. -/
theorem wp_program_phrase {address : Nat} {data : Nat → Byte}
    (hrange : rangeOk b.ram.flash address flashPhraseSize = true)
    (haligned : address % flashPhraseSize = 0)
    (herased : Erased b.dev.mem address flashPhraseSize)
    (hblank : TwoCopy.blank data flashPhraseSize = true → Q true b)
    (hdone : Q true (b.setDev (b.dev.after (.program address flashPhraseSize data)
      flashPhraseSize)))
    (hcut : ∀ n, Fate.cut n ∈ b.dev.fates →
      C (b.setDev (b.dev.after (.program address flashPhraseSize data) n)))
    (hfail : ∀ n, Fate.fail n ∈ b.dev.fates →
      Q false (b.setDev (b.dev.after (.program address flashPhraseSize data) n))) :
    wp (program address data flashPhraseSize) Q C b := by
  have hdata : (fun i => data (0 + i)) = data := by
    funext i
    rw [Nat.zero_add]
  -- the driver compares the phrase with what it reads back
  have hverify : ∀ d : Device Note, (∀ i, i < flashPhraseSize → d.mem (address + i) = data i) →
      Q true (b.setDev d) → wp (verify address data flashPhraseSize >>= fun ok =>
        if (!ok) = true then pure false else pure true) Q C (b.setDev d) := by
    intro d hread hQ
    rw [wp_bind]
    unfold verify
    rw [wp_bind, BootM.wp_getRam, Board.setDev_ram, wp_ite, if_neg (by simp [hrange]), wp_bind,
      BootM.wp_flash]
    refine (wp_pure _).2 ?_
    rw [decide_eq_true (by simpa using hread)]
    exact hQ
  have hself : flashPhraseSize % flashPhraseSize = 0 := rfl
  unfold program
  rw [wp_bind, BootM.wp_getRam, wp_ite, if_neg (by simp [hrange, haligned, hself])]
  rw [show flashPhraseSize / flashPhraseSize = 0 + 1 from rfl]
  unfold programLoop programPhrase
  rw [hdata, Nat.add_zero, wp_bind, wp_ite]
  by_cases hb : TwoCopy.blank data flashPhraseSize = true
  · rw [if_pos hb]
    refine (wp_pure true).2 ?_
    rw [wp_ite, if_neg (by decide)]
    refine hverify b.dev (fun i hi => ?_) (hblank hb)
    rw [herased i hi]
    simp only [TwoCopy.blank, decide_eq_true_eq] at hb
    exact (hb i hi).symm
  · rw [if_neg hb, BootM.wp_device]
    refine wp_issue ?_ hcut ?_
    · rw [wp_ite, if_neg (by decide)]
      refine hverify _ (fun i hi => ?_) hdone
      exact program_effect_erased herased (by simpa [Command.size] using hi)
    · intro n hn
      rw [wp_ite, if_pos (by decide)]
      exact (wp_pure false).2 (hfail n hn)

theorem wp_withWindow {start stop : Nat} {m : BootM Bool}
    (h : wp m (fun ok b' => Q ok { b' with ram := { b'.ram with flash := { b'.ram.flash with
        targetStart := b.ram.flash.targetStart, targetEnd := b.ram.flash.targetEnd } } }) C
      { b with ram := { b.ram with flash := { b.ram.flash with
        targetStart := start, targetEnd := stop } } }) :
    wp (withWindow start stop m) Q C b := by
  unfold withWindow setWindow
  rw [wp_bind, BootM.wp_getRam, wp_bind, BootM.wp_setFlash, wp_bind]
  exact h

/-- The sector erase of a storage. -/
theorem wp_windowErase {address : Nat} (haligned : address % flashSectorSize = 0)
    (hdone : Q true (b.setDev (b.dev.after (.erase address flashSectorSize) flashSectorSize)))
    (hcut : ∀ n b', Fate.cut n ∈ b.dev.fates → b'.dev = b.dev.after
      (.erase address flashSectorSize) ((Command.erase address flashSectorSize).cutSize n) → C b')
    (hfail : ∀ n, Fate.fail n ∈ b.dev.fates → Q false (b.setDev (b.dev.after
      (.erase address flashSectorSize) ((Command.erase address flashSectorSize).cutSize n)))) :
    wp (withWindow address (address + flashSectorSize) (erase address flashSectorSize)) Q C b := by
  refine wp_withWindow (wp_erase ?_ haligned hdone (fun n hn => hcut n _ hn rfl) hfail)
  rw [rangeOk_iff]
  exact ⟨by decide, le_refl _, le_refl _⟩

/-- The phrase program of a storage. -/
theorem wp_windowProgram {address limit offset : Nat} {data : Nat → Byte}
    (haligned : flashPhraseSize ∣ address) (hoffset : flashPhraseSize ∣ offset)
    (hlimit : offset + flashPhraseSize ≤ limit)
    (herased : Erased b.dev.mem (address + offset) flashPhraseSize)
    (hblank : TwoCopy.blank data flashPhraseSize = true → Q true b)
    (hdone : Q true (b.setDev (b.dev.after (.program (address + offset) flashPhraseSize data)
      flashPhraseSize)))
    (hcut : ∀ n b', Fate.cut n ∈ b.dev.fates →
      b'.dev = b.dev.after (.program (address + offset) flashPhraseSize data) n → C b')
    (hfail : ∀ n, Fate.fail n ∈ b.dev.fates → Q false (b.setDev
      (b.dev.after (.program (address + offset) flashPhraseSize data) n))) :
    wp (withWindow address (address + limit) (program (address + offset) data flashPhraseSize))
      Q C b := by
  refine wp_withWindow (wp_program_phrase ?_ ?_ herased hblank hdone (fun n hn => hcut n _ hn rfl) hfail)
  · rw [rangeOk_iff]
    exact ⟨by decide, Nat.le_add_right _ _, by dsimp only; omega⟩
  · exact Nat.mod_eq_zero_of_dvd (Nat.dvd_add haligned hoffset)

/-- The sector erase of a storage that nothing disturbs. -/
theorem wp_windowErase_ok {address : Nat} (haligned : address % flashSectorSize = 0)
    (hf : b.dev.fates.head? = some .ok) :
    wp (withWindow address (address + flashSectorSize) (erase address flashSectorSize))
      (fun ok b' => ok = true ∧ b' = b.setDev (b.dev.after (.erase address flashSectorSize)
        flashSectorSize)) C b := by
  refine wp_withWindow ?_
  have hrange : rangeOk { b.ram.flash with
      targetStart := address, targetEnd := address + flashSectorSize }
      address flashSectorSize = true := rangeOk_iff.2 ⟨by decide, le_rfl, le_rfl⟩
  unfold erase
  rw [wp_bind, BootM.wp_getRam, wp_ite, if_neg (by simp [hrange, haligned]), wp_bind,
    BootM.wp_device]
  refine wp_issue_ok hf ?_
  rw [wp_ite, if_neg (by decide), wp_bind, BootM.wp_flash]
  exact ⟨decide_eq_true erase_effect_erased, rfl⟩

/-- The phrase program of a storage in which the power is cut. -/
theorem wp_windowProgram_cut {address limit n : Nat} {data : Nat → Byte}
    (haligned : address % flashPhraseSize = 0) (hlimit : flashPhraseSize ≤ limit)
    (hblank : TwoCopy.blank data flashPhraseSize = false)
    (hf : b.dev.fates.head? = some (.cut n)) :
    wp (withWindow address (address + limit) (program address data flashPhraseSize)) Q
      (fun b' => b'.dev = b.dev.after (.program address flashPhraseSize data) n) b := by
  have hdata : (fun i => data (0 + i)) = data := by
    funext i
    rw [Nat.zero_add]
  have hself : flashPhraseSize % flashPhraseSize = 0 := rfl
  refine wp_withWindow ?_
  have hrange : rangeOk { b.ram.flash with targetStart := address, targetEnd := address + limit }
      address flashPhraseSize = true := rangeOk_iff.2 ⟨by decide, le_rfl, by dsimp only; omega⟩
  unfold program
  rw [wp_bind, BootM.wp_getRam, wp_ite, if_neg (by simp [hrange, haligned, hself]),
    show flashPhraseSize / flashPhraseSize = 0 + 1 from rfl]
  unfold programLoop programPhrase
  rw [wp_bind, hdata, hblank, if_neg (by decide), BootM.wp_device]
  exact wp_issue_cut hf rfl

theorem dvd_journalAddress (k : Fin 2) : flashSectorSize ∣ journalAddress k := by
  unfold journalAddress
  exact Nat.dvd_add (by decide) (Nat.dvd_mul_left _ _)

theorem dvd_metadataAddress (slot : Slot) (k : Fin 2) :
    flashSectorSize ∣ metadataAddress slot k := by
  unfold metadataAddress
  exact Nat.dvd_add (by decide) (Nat.dvd_mul_left _ _)

/-- The sectors of the two slots do not overlap. -/
theorem metadataAddress_apart : ∀ (slot : Slot) (k j : Fin 2),
    metadataAddress slot k + flashSectorSize ≤ metadataAddress slot.other j ∨
      metadataAddress slot.other j + flashSectorSize ≤ metadataAddress slot k
  | .a => by decide
  | .b => by decide

end FlashDriver

open FlashDriver

/-- The two journal sectors. -/
def BootJournalStorage.port : TwoCopy.Port Board Note where
  dev := Board.dev
  setDev := Board.setDev
  base := journalAddress
  sector := flashSectorSize
  phrase := flashPhraseSize
  limit := journalRecordSize
  ready b := b.ram.flash.ready = true
  erase := BootJournalStorage.erase
  program k offset data := BootJournalStorage.program k offset data flashPhraseSize
  dev_setDev _ _ := rfl
  setDev_dev _ := rfl
  setDev_setDev _ _ _ := rfl
  ready_setDev _ _ h := h
  limit_le := by decide
  phrase_pos := by decide
  apart := by decide
  wp_erase := by
    intro k b Q C hready hdone hcut hfail
    unfold BootJournalStorage.erase BootFlash.apiValid
    rw [wp_bind, BootM.wp_getRam, wp_ite, if_neg (by simp [hready])]
    exact wp_windowErase (Nat.mod_eq_zero_of_dvd (dvd_journalAddress k)) hdone hcut hfail
  wp_program := by
    intro k offset data b Q C hready hoffset hlimit herased hblank hdone hcut hfail
    unfold BootJournalStorage.program BootFlash.apiValid journalProgram
    have h8 : flashPhraseSize = 8 := rfl
    rw [wp_bind, BootM.wp_getRam, wp_ite, if_neg (by simp [hready]), wp_ite, if_neg (by omega)]
    exact wp_windowProgram (dvd_trans (by decide) (dvd_journalAddress k)) hoffset hlimit herased
      hblank hdone hcut hfail

/-- The two metadata sectors of a slot. -/
def BootMetadataStorage.port (slot : Slot) : TwoCopy.Port Board Note where
  dev := Board.dev
  setDev := Board.setDev
  base := metadataAddress slot
  sector := flashSectorSize
  phrase := flashPhraseSize
  limit := metadataRecordSize
  ready b := b.ram.flash.ready = true
  erase := BootMetadataStorage.erase slot
  program k offset data := BootMetadataStorage.program slot k offset data flashPhraseSize
  dev_setDev _ _ := rfl
  setDev_dev _ := rfl
  setDev_setDev _ _ _ := rfl
  ready_setDev _ _ h := h
  limit_le := by decide
  phrase_pos := by decide
  apart := by
    cases slot <;> decide
  wp_erase := by
    intro k b Q C hready hdone hcut hfail
    unfold BootMetadataStorage.erase BootFlash.apiValid
    rw [wp_bind, BootM.wp_getRam, wp_ite, if_neg (by simp [hready])]
    exact wp_windowErase (Nat.mod_eq_zero_of_dvd (dvd_metadataAddress slot k)) hdone hcut hfail
  wp_program := by
    intro k offset data b Q C hready hoffset hlimit herased hblank hdone hcut hfail
    unfold BootMetadataStorage.program BootFlash.apiValid metadataProgram
    have h8 : flashPhraseSize = 8 := rfl
    rw [wp_bind, BootM.wp_getRam, wp_ite, if_neg (by simp [hready]), wp_ite, if_neg (by omega)]
    exact wp_windowProgram (dvd_trans (by decide) (dvd_metadataAddress slot k)) hoffset hlimit
      herased hblank hdone hcut hfail

/-- Without the flash driver no sector is erased, so nothing is written. -/
theorem TwoCopy.writeCopy_unready {R : Type} {F : TwoCopy.Format R} {P : TwoCopy.Port Board Note}
    {b : Board} {k : Fin 2} {next : R} {Q : Option R → Board → Prop} {C : Board → Prop}
    (herase : wp (P.erase k) (fun ok b' => ok = false ∧ b' = b) C b) (hQ : Q none b) :
    wp (TwoCopy.writeCopy F P k next) Q C b := by
  unfold TwoCopy.writeCopy
  rw [wp_ite]
  split
  · exact (wp_pure none).2 hQ
  · refine wp_seq herase ?_ fun _ h => h
    rintro ok b' ⟨rfl, rfl⟩
    rw [wp_ite, if_pos (by decide)]
    exact (wp_pure none).2 hQ

theorem BootJournalStorage.erase_unready {b : Board} {k : Fin 2} {C : Board → Prop}
    (hready : b.ram.flash.ready = false) :
    wp (BootJournalStorage.port.erase k) (fun ok b' => ok = false ∧ b' = b) C b := by
  show wp (BootJournalStorage.erase k) _ C b
  unfold BootJournalStorage.erase BootFlash.apiValid
  rw [wp_bind, BootM.wp_getRam, wp_ite, if_pos (by simp [hready])]
  exact (wp_pure false).2 ⟨rfl, rfl⟩

theorem BootMetadataStorage.erase_unready {slot : Slot} {b : Board} {k : Fin 2} {C : Board → Prop}
    (hready : b.ram.flash.ready = false) :
    wp ((BootMetadataStorage.port slot).erase k) (fun ok b' => ok = false ∧ b' = b) C b := by
  show wp (BootMetadataStorage.erase slot k) _ C b
  unfold BootMetadataStorage.erase BootFlash.apiValid
  rw [wp_bind, BootM.wp_getRam, wp_ite, if_pos (by simp [hready])]
  exact (wp_pure false).2 ⟨rfl, rfl⟩
