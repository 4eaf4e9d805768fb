import BootloaderV2.View

/-!
# Erasing and programming a slot

The facade lets a configured slot be written, and nothing else.  With the range erased before,
programming stores the data; without that knowledge all commands still stay inside the range.
-/

open BootConfig NorFlash CrashM

namespace BootFlash

/-- The facade writes slot `t`, and `active` is the slot that runs. -/
structure Configured (f : State) (active : SlotId) (t : Slot) : Prop where
  ready : f.ready = true
  activeSlot : f.activeSlot = active
  targetSlot : f.targetSlot = some t
  targetStart : f.targetStart = t.base
  targetEnd : f.targetEnd = t.base + slotSize
  apart : active ≠ some t

/-- The variables after `configureSlots`. -/
def configured (f : State) (active : SlotId) (t : Slot) : State :=
  ⟨f.ready, active, some t, t.base, t.base + slotSize⟩

theorem configured_spec {f : State} {active : SlotId} {t : Slot} (hready : f.ready = true)
    (h : active ≠ some t) : Configured (configured f active t) active t :=
  ⟨hready, rfl, rfl, rfl, rfl, h⟩

variable {R : View → View → Prop} {b : Board} {active : SlotId} {t : Slot}

theorem runs_configureSlots (hready : b.ram.flash.ready = true) (h : active ≠ some t) :
    Runs R (configureSlots active (some t))
      (fun ok b' => ok = true ∧
        b' = { b with ram := { b.ram with flash := configured b.ram.flash active t } }) b := by
  have hbeq : (active == some t) = false := by simpa using h
  unfold configureSlots apiValid
  rw [Runs.bind_setFlash, Runs.bind_getRam]
  refine .ite (fun hc => absurd hc (by simp [hready, hbeq])) fun _ => ?_
  refine Runs.bind (Q := fun ok b' => ok = true ∧ b' = { b with ram := { b.ram with
    flash := ⟨b.ram.flash.ready, none, none, t.base, t.base + slotSize⟩ } }) ?_ ?_
  · unfold FlashDriver.init FlashDriver.setWindow
    rw [Runs.bind_setFlash]
    refine .ite (fun hc => absurd hc h) fun _ => ?_
    rw [Runs.bind_setFlash]
    exact .pure ⟨rfl, rfl⟩
  · rintro ok b' - ⟨rfl, rfl⟩
    refine .ite (fun hc => absurd hc (by decide)) fun _ => ?_
    rw [Runs.bind_setFlash]
    exact .pure ⟨rfl, rfl⟩

theorem containsRange_iff {address length : Nat} :
    BootSlot.containsRange (some t) address length = true ↔
      length ≠ 0 ∧ t.base ≤ address ∧ address + length ≤ t.base + slotSize := by
  obtain ⟨d, hd, hbase, hend⟩ : ∃ d, BootSlot.getDescriptor (some t) = some d ∧
      d.baseAddress = t.base ∧ d.endAddress = t.base + slotSize := by
    cases t <;> exact ⟨_, rfl, rfl, rfl⟩
  simp only [BootSlot.containsRange, hd, Bool.and_eq_true, decide_eq_true_eq, hbase, hend]
  omega

theorem isRangeValid_of_configured {address length : Nat}
    (h : Configured b.ram.flash active t) (hlen : length ≠ 0) (hlo : t.base ≤ address)
    (hhi : address + length ≤ t.base + slotSize) :
    isRangeValid b.ram.flash address length = true ∧
      FlashDriver.rangeOk b.ram.flash address length = true := by
  constructor
  · have hne : (some t == active) = false := by
      have := h.apart
      rw [beq_eq_false_iff_ne]
      exact fun he => this he.symm
    rw [isRangeValid, h.targetSlot, h.activeSlot, containsRange_iff.2 ⟨hlen, hlo, hhi⟩]
    simp [bne, hne]
  · rw [FlashDriver.rangeOk_iff, h.targetStart, h.targetEnd]
    exact ⟨hlen, hlo, hhi⟩

/-- Erasing a sector of the configured slot. -/
theorem runs_erase {address : Nat} (h : Configured b.ram.flash active t) (hf : b.dev.Faultless)
    (hlo : t.base ≤ address) (hhi : address + flashSectorSize ≤ t.base + slotSize)
    (haligned : address % flashSectorSize = 0)
    (hR : R (View.of b.dev.mem) (View.of b.dev.mem) ∧ R (View.of b.dev.mem)
      (View.of ((Command.erase address flashSectorSize).effect flashSectorSize b.dev.mem))) :
    Runs R (erase address flashSectorSize)
      (fun ok b' => ok = true ∧ ∃ d', b' = b.setDev d' ∧
        d'.mem = (Command.erase address flashSectorSize).effect flashSectorSize b.dev.mem) b := by
  obtain ⟨hvalid, hrange⟩ := isRangeValid_of_configured h (by decide) hlo hhi
  unfold erase apiValid
  rw [Runs.bind_getRam]
  refine .ite (fun hc => absurd hc (by simp [h.ready, hvalid, haligned])) fun _ => ?_
  refine FlashDriver.wp_erase hrange haligned ⟨?_, rfl, _, rfl, rfl⟩ (fun n hn => ⟨?_, ?_⟩)
    fun n hn => absurd hn (hf n)
  · exact (Evolves.refl _).command _ _ hR.2
  · refine (Evolves.refl _).command _ _ ?_
    simp only [Command.cutSize]
    split
    · rw [Command.effect_zero]
      exact hR.1
    · exact hR.2
  · exact fun hu => hu n hn

/-- Programming an erased range of the configured slot. -/
theorem runs_program {address size : Nat} {data : Nat → Byte}
    (h : Configured b.ram.flash active t) (hf : b.dev.Faultless) (hsize : size ≠ 0)
    (hlo : t.base ≤ address) (hhi : address + size ≤ t.base + slotSize)
    (haligned : address % flashPhraseSize = 0) (hphrase : size % flashPhraseSize = 0)
    (herased : Erased b.dev.mem address size)
    (hR : ∀ m m' p q, p ≤ q → q ≤ size →
      FlashDriver.Programmed address data size b.dev.mem p m →
      FlashDriver.Programmed address data size b.dev.mem q m' → R (View.of m) (View.of m')) :
    Runs R (program address data size)
      (fun ok b' => ok = true ∧ ∃ d', b' = b.setDev d' ∧
        FlashDriver.Programmed address data size b.dev.mem size d'.mem) b := by
  obtain ⟨hvalid, hrange⟩ := isRangeValid_of_configured h hsize hlo hhi
  have hstart : FlashDriver.Programmed address data size b.dev.mem 0 b.dev.mem := by
    refine ⟨.refl _ _ _, fun i hi => ?_⟩
    rw [if_neg (Nat.not_lt_zero i)]
    exact herased i hi
  unfold program apiValid
  rw [Runs.bind_getRam]
  refine .ite (fun hc => absurd hc (by simp [h.ready, hvalid, haligned, hphrase])) fun _ => ?_
  unfold FlashDriver.program
  rw [Runs.bind_getRam]
  refine .ite (fun hc => absurd hc (by simp [hrange, haligned, hphrase])) fun _ => ?_
  refine wp_mono (FlashDriver.wp_programLoop (R := fun _ m m' => R (View.of m) (View.of m'))
    (e := b.dev) (fun c m m' p q _ _ hpq hq hm hm' => hR m m' p q hpq hq hm hm')
    (FlashDriver.rangeOk_iff.1 hrange).2 ?_ (.refl _) hstart) ?_ ?_
  · rw [Nat.zero_add, Nat.mul_div_cancel' (Nat.dvd_of_mod_eq_zero hphrase)]
  · rintro ok b' ⟨d', rfl, hev, -, htrue, hfalse⟩
    cases ok with
    | false => exact absurd hf (hfalse rfl)
    | true => exact ⟨hev, rfl, d', rfl, htrue rfl⟩
  · rintro b' ⟨d', rfl, hev, -, hcut⟩
    exact ⟨hev, hcut⟩

end BootFlash

/-! ## Without knowledge of the contents -/

section

variable {R : View → View → Prop} {b : Board} {address size : Nat}

/-- One command, completed, failed or cut. -/
theorem Runs.issue {c : Command}
    (hR : ∀ n, R (View.of b.dev.mem) (View.of (c.effect n b.dev.mem))) :
    Runs R (BootM.device (NorFlash.issue c)) (fun _ b' => ∃ n, b' = b.setDev (b.dev.after c n))
      b := by
  refine BootM.wp_device.2 (wp_issue ⟨(Evolves.refl _).command _ _ (hR _), _, rfl⟩
    (fun n hn => ⟨(Evolves.refl _).command _ _ (hR _), fun hu => hu n hn⟩)
    fun n _ => ⟨(Evolves.refl _).command _ _ (hR _), _, rfl⟩)

theorem FlashDriver.runs_verify {data : Nat → Byte} :
    Runs R (FlashDriver.verify address data size) (fun _ b' => b' = b) b := by
  unfold FlashDriver.verify
  rw [Runs.bind_getRam]
  refine .ite (fun _ => .pure rfl) fun _ => ?_
  rw [Runs.bind_flash]
  exact .pure rfl

/-- Every command stays inside the range, whatever it held before. -/
theorem FlashDriver.runs_programLoop_any {data : Nat → Byte}
    (hR : ∀ m m', SameOutside address size b.dev.mem m → SameOutside address size m m' →
      R (View.of m) (View.of m')) {offset n : Nat}
    (hn : offset + flashPhraseSize * n ≤ size) :
    Runs R (FlashDriver.programLoop address data offset n)
      (fun _ b' => ∃ d', b' = b.setDev d' ∧ SameOutside address size b.dev.mem d'.mem) b := by
  induction n generalizing b offset with
  | zero => exact .pure ⟨b.dev, rfl, .refl _ _ _⟩
  | succ n ih =>
    rw [Nat.mul_succ] at hn
    have hphrase : ∀ k m, SameOutside address size m ((Command.program (address + offset)
        flashPhraseSize fun i => data (offset + i)).effect k m) := by
      intro k m
      refine (sameOutside_effect _ k m).mono (Nat.le_add_right _ _) ?_
      simp only [Command.address, Command.size]
      omega
    unfold FlashDriver.programLoop
    refine Runs.bind (Q := fun _ b' => ∃ d', b' = b.setDev d' ∧
      SameOutside address size b.dev.mem d'.mem) ?_ ?_
    · unfold FlashDriver.programPhrase
      refine .ite (fun _ => .pure ⟨b.dev, rfl, .refl _ _ _⟩) fun _ => ?_
      refine (Runs.issue fun k => hR _ _ (.refl _ _ _) (hphrase k _)).mono ?_
      rintro ok b' - ⟨k, rfl⟩
      exact ⟨_, rfl, hphrase k _⟩
    · rintro ok b' - ⟨d, rfl, hd⟩
      refine .ite (fun _ => .pure ⟨d, rfl, hd⟩) fun _ => ?_
      refine FlashDriver.runs_verify.bind ?_
      rintro ok' b' - rfl
      refine .ite (fun _ => .pure ⟨d, rfl, hd⟩) fun _ => ?_
      refine (ih (fun m m' hm hm' => hR m m' (hd.trans hm) hm') (by omega)).mono ?_
      rintro ok'' b' - ⟨d', rfl, hd'⟩
      exact ⟨d', rfl, hd.trans hd'⟩

/-- `BootFlash_Program` stays inside its range. -/
theorem BootFlash.runs_program_any {data : Nat → Byte}
    (hR : ∀ m m', SameOutside address size b.dev.mem m → SameOutside address size m m' →
      R (View.of m) (View.of m')) :
    Runs R (BootFlash.program address data size)
      (fun _ b' => ∃ d', b' = b.setDev d' ∧ SameOutside address size b.dev.mem d'.mem) b := by
  unfold BootFlash.program
  rw [Runs.bind_getRam]
  refine .ite (fun _ => .pure ⟨b.dev, rfl, .refl _ _ _⟩) fun _ => ?_
  unfold FlashDriver.program
  rw [Runs.bind_getRam]
  refine .ite (fun _ => .pure ⟨b.dev, rfl, .refl _ _ _⟩) fun _ => ?_
  refine FlashDriver.runs_programLoop_any hR ?_
  rw [Nat.zero_add]
  exact Nat.mul_div_le _ _

/-- `BootFlash_Erase` stays inside its range. -/
theorem BootFlash.runs_erase_any
    (hR : ∀ m m', SameOutside address size b.dev.mem m → SameOutside address size m m' →
      R (View.of m) (View.of m')) :
    Runs R (BootFlash.erase address size)
      (fun _ b' => ∃ d', b' = b.setDev d' ∧ SameOutside address size b.dev.mem d'.mem) b := by
  have hcommand : ∀ n m, SameOutside address size m ((Command.erase address size).effect n m) :=
    fun n m => sameOutside_effect (.erase address size) n m
  unfold BootFlash.erase
  rw [Runs.bind_getRam]
  refine .ite (fun _ => .pure ⟨b.dev, rfl, .refl _ _ _⟩) fun _ => ?_
  unfold FlashDriver.erase
  rw [Runs.bind_getRam]
  refine .ite (fun _ => .pure ⟨b.dev, rfl, .refl _ _ _⟩) fun _ => ?_
  refine (Runs.issue fun n => hR _ _ (.refl _ _ _) (hcommand n _)).bind ?_
  rintro ok b' - ⟨n, rfl⟩
  refine .ite (fun _ => .pure ⟨_, rfl, hcommand n _⟩) fun _ => ?_
  rw [Runs.bind_flash]
  exact .pure ⟨_, rfl, hcommand n _⟩

end
