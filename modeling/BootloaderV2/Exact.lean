import BootloaderV2.Commands
import BootloaderV2.UpdateSpec

/-!
# What a successful call leaves

The driver reads back what it writes and the journal what it commits, so that success tells exactly
what is on flash, whatever faults the device has.  Without faults and cuts the calls do succeed.
-/

open BootConfig NorFlash CrashM TwoCopy

namespace NorFlash

/-- No coming command fails or is cut. -/
def Device.Healthy {ε : Type} (d : Device ε) : Prop := d.Faultless ∧ d.Uncut

theorem place_eq {base size : Nat} {data m m' : Nat → Byte} (hout : SameOutside base size m m')
    (hin : ∀ i, i < size → m' (base + i) = data i) : m' = place base size data m := by
  funext a
  unfold place
  split
  · rename_i h
    have := hin (a - base) (by omega)
    rwa [Nat.add_sub_cancel' h.1] at this
  · exact hout a (by omega)

end NorFlash

namespace CrashM

variable {β : Type} {b : Board} {P : β → Board → Prop}

namespace Ensures

theorem bind_getRam {f : Ram → BootM β} :
    Ensures (BootM.getRam >>= f) P b ↔ Ensures (f b.ram) P b := Iff.rfl

theorem bind_get {f : Board → BootM β} :
    Ensures (CrashM.get >>= f) P b ↔ Ensures (f b) P b := Iff.rfl

theorem bind_flash {f : (Nat → Byte) → BootM β} :
    Ensures (BootM.flash >>= f) P b ↔ Ensures (f b.mem) P b := Iff.rfl

theorem bind_setFlash {n : BootM β} {g : BootFlash.State → BootFlash.State} :
    Ensures (BootM.setFlash g >>= fun _ => n) P b ↔
      Ensures n P { b with ram := { b.ram with flash := g b.ram.flash } } := Iff.rfl

theorem bind_setUpdate {n : BootM β} {g : BootUpdate.State → BootUpdate.State} :
    Ensures (BootM.setUpdate g >>= fun _ => n) P b ↔
      Ensures n P { b with ram := { b.ram with update := g b.ram.update } } := Iff.rfl

theorem bind_setLifecycle {n : BootM β} {g : BootLifecycle.State → BootLifecycle.State} :
    Ensures (BootM.setLifecycle g >>= fun _ => n) P b ↔
      Ensures n P { b with ram := { b.ram with lifecycle := g b.ram.lifecycle } } := Iff.rfl

theorem bind_setProgramming {n : BootM β}
    {g : BootProgramming.Context → BootProgramming.Context} :
    Ensures (BootM.setProgramming g >>= fun _ => n) P b ↔
      Ensures n P { b with ram := { b.ram with programming := g b.ram.programming } } := Iff.rfl

theorem of_issues {α : Type} {R : CommandRel} {m : BootM α} {Q : α → Board → Prop}
    (h : Issues R m Q b) : Ensures m Q b :=
  wp_mono h (fun _ _ h => h.2) fun _ _ => trivial

theorem of_runs {α : Type} {R : View → View → Prop} {m : BootM α}
    {Q : α → Board → Prop} (h : Runs R m Q b) : Ensures m Q b :=
  wp_mono h (fun _ _ h => h.2) fun _ _ => trivial

/-- A command that is known to return is followed by the rest. -/
theorem step {α β : Type} {m : BootM α} {f : α → BootM β} {a : α} {b b' : Board}
    {Q : β → Board → Prop} (hm : m b = .done a b') (hf : Ensures (f a) Q b') :
    Ensures (m >>= f) Q b := by
  unfold Ensures wp at hf ⊢
  simp only [Bind.bind, hm]
  exact hf

end Ensures

namespace Completes

theorem bind_getRam {f : Ram → BootM β} :
    Completes (BootM.getRam >>= f) P b ↔ Completes (f b.ram) P b := Iff.rfl

theorem bind_flash {f : (Nat → Byte) → BootM β} :
    Completes (BootM.flash >>= f) P b ↔ Completes (f b.mem) P b := Iff.rfl

theorem bind_setUpdate {n : BootM β} {g : BootUpdate.State → BootUpdate.State} :
    Completes (BootM.setUpdate g >>= fun _ => n) P b ↔
      Completes n P { b with ram := { b.ram with update := g b.ram.update } } := Iff.rfl

theorem bind_setProgramming {n : BootM β}
    {g : BootProgramming.Context → BootProgramming.Context} :
    Completes (BootM.setProgramming g >>= fun _ => n) P b ↔
      Completes n P { b with ram := { b.ram with programming := g b.ram.programming } } := Iff.rfl

/-- A program that only a cut can keep from returning returns on a healthy device. -/
theorem of_runs {α : Type} {R : View → View → Prop} {m : BootM α} {Q : α → Board → Prop}
    (h : Runs R m Q b) (hd : b.dev.Healthy) :
    Completes m (fun a b' => b'.dev.Healthy ∧ Q a b') b :=
  wp_mono h (fun _ _ h => ⟨⟨h.1.faultless hd.1, h.1.uncut hd.2⟩, h.2⟩) fun _ h => h.2 hd.2

end Completes

end CrashM

/-! ## The flash -/

namespace FlashDriver

variable {b : Board} {address size : Nat} {data : Nat → Byte}

theorem ensures_verify : Ensures (verify address data size) (fun ok b' => b' = b ∧
    (ok = true → ∀ i, i < size → b.mem (address + i) = data i)) b := by
  unfold verify
  rw [Ensures.bind_getRam]
  refine .ite (fun _ => .pure ⟨rfl, fun h => by cases h⟩) fun _ => ?_
  rw [Ensures.bind_flash]
  exact .pure ⟨rfl, fun h => of_decide_eq_true h⟩

/-- One command stays in its range, however it ends. -/
theorem ensures_issue (c : Command) :
    Ensures (BootM.device (issue c)) (fun _ b' => ∃ d, b' = b.setDev d ∧
      SameOutside c.address c.size b.mem d.mem) b := by
  refine BootM.wp_device.2 (wp_issue ?_ (fun _ _ => trivial) ?_)
  · exact ⟨_, rfl, sameOutside_effect c _ _⟩
  · exact fun n _ => ⟨_, rfl, sameOutside_effect c _ _⟩

theorem ensures_erase : Ensures (erase address size) (fun ok b' => ∃ d, b' = b.setDev d ∧
    (ok = true → d.mem = place address size (fun _ => 0xFF) b.mem)) b := by
  unfold erase
  rw [Ensures.bind_getRam]
  refine .ite (fun _ => .pure ⟨b.dev, rfl, fun h => by cases h⟩) fun _ => ?_
  refine (ensures_issue _).bind ?_
  rintro ok b' ⟨d, rfl, hout⟩
  refine .ite (fun _ => .pure ⟨d, rfl, fun h => by cases h⟩) fun _ => ?_
  rw [Ensures.bind_flash]
  exact .pure ⟨d, rfl, fun h => place_eq hout (of_decide_eq_true h)⟩

/-- Every phrase is compared with what it should be, and no later one disturbs it. -/
theorem ensures_programLoop {offset n : Nat} :
    Ensures (programLoop address data offset n) (fun ok b' => ∃ d, b' = b.setDev d ∧
      SameOutside (address + offset) (flashPhraseSize * n) b.mem d.mem ∧
      (ok = true → ∀ i, i < flashPhraseSize * n →
        d.mem (address + offset + i) = data (offset + i))) b := by
  induction n generalizing b offset with
  | zero => exact .pure ⟨b.dev, rfl, .refl _ _ _, fun _ i hi => absurd hi (Nat.not_lt_zero i)⟩
  | succ n ih =>
    have hsucc : flashPhraseSize * (n + 1) = flashPhraseSize * n + flashPhraseSize :=
      Nat.mul_succ _ _
    have hone : Ensures (programPhrase (address + offset) fun i => data (offset + i))
        (fun _ b' => ∃ d, b' = b.setDev d ∧
          SameOutside (address + offset) flashPhraseSize b.mem d.mem) b := by
      unfold programPhrase
      exact .ite (fun _ => .pure ⟨b.dev, rfl, .refl _ _ _⟩) fun _ => ensures_issue _
    unfold programLoop
    refine hone.bind ?_
    rintro ok b' ⟨d, rfl, hd⟩
    have hwide := hd.mono (a := address + offset) (n := flashPhraseSize * (n + 1)) (le_refl _)
      (by omega)
    refine .ite (fun _ => .pure ⟨d, rfl, hwide, fun h => by cases h⟩) fun _ => ?_
    refine ensures_verify.bind ?_
    rintro ok' b' ⟨rfl, hread⟩
    refine .ite (fun _ => .pure ⟨d, rfl, hwide, fun h => by cases h⟩) fun hok => ?_
    refine ih.mono ?_
    rintro ok'' b' ⟨d', rfl, hd', hrest⟩
    refine ⟨d', rfl, fun a ha => ?_, fun h i hi => ?_⟩
    · exact (hd' a (by omega)).trans (hd a (by omega))
    · by_cases hlow : i < flashPhraseSize
      · -- the phrase just verified lies below the rest
        have := hread (by simpa using hok) i hlow
        exact (hd' _ (by omega)).trans this
      · have := hrest h (i - flashPhraseSize) (by omega)
        rwa [show address + (offset + flashPhraseSize) + (i - flashPhraseSize) =
            address + offset + i by omega,
          show offset + flashPhraseSize + (i - flashPhraseSize) = offset + i by omega] at this

theorem ensures_program : Ensures (program address data size) (fun ok b' => ∃ d, b' = b.setDev d ∧
    (ok = true → d.mem = place address size data b.mem)) b := by
  unfold program
  rw [Ensures.bind_getRam]
  refine .ite (fun _ => .pure ⟨b.dev, rfl, fun h => by cases h⟩) fun hc => ?_
  have hsize : flashPhraseSize * (size / flashPhraseSize) = size := by
    refine Nat.mul_div_cancel' (Nat.dvd_of_mod_eq_zero ?_)
    simp only [Bool.or_eq_true, not_or, bne_iff_ne, ne_eq, not_not] at hc
    exact hc.2
  refine ensures_programLoop.mono ?_
  rintro ok b' ⟨d, rfl, hout, hread⟩
  rw [hsize] at hout hread
  simp only [Nat.add_zero, Nat.zero_add] at hout hread
  exact ⟨d, rfl, fun h => place_eq hout (hread h)⟩

end FlashDriver

namespace BootFlash

variable {b : Board} {address size : Nat} {data : Nat → Byte} {active : SlotId} {t : Slot}

/-- A sector erase that succeeds. -/
theorem ensures_erase : Ensures (erase address size) (fun ok b' => ∃ d, b' = b.setDev d ∧
    (ok = true → d.mem = place address size (fun _ => 0xFF) b.mem)) b := by
  unfold erase
  rw [Ensures.bind_getRam]
  exact .ite (fun _ => .pure ⟨b.dev, rfl, fun h => by cases h⟩) fun _ => FlashDriver.ensures_erase

/-- Programming that succeeds. -/
theorem ensures_program : Ensures (program address data size) (fun ok b' => ∃ d, b' = b.setDev d ∧
    (ok = true → d.mem = place address size data b.mem)) b := by
  unfold program
  rw [Ensures.bind_getRam]
  exact .ite (fun _ => .pure ⟨b.dev, rfl, fun h => by cases h⟩) fun _ => FlashDriver.ensures_program

theorem ensures_configureSlots : Ensures (configureSlots active (some t)) (fun ok b' => ok = true →
    b.ram.flash.ready = true ∧ active ≠ some t ∧
      b' = { b with ram := { b.ram with flash := configured b.ram.flash active t } }) b := by
  by_cases hready : b.ram.flash.ready = true
  swap
  · unfold configureSlots apiValid
    rw [Ensures.bind_setFlash, Ensures.bind_getRam]
    exact .ite (fun _ => .pure fun h => by cases h) fun h => absurd h (by simp [hready])
  by_cases hne : active = some t
  · unfold configureSlots apiValid
    rw [Ensures.bind_setFlash, Ensures.bind_getRam]
    exact .ite (fun _ => .pure fun h => by cases h) fun h => absurd h (by simp [hne])
  refine Ensures.of_wp (wp_mono (runs_configureSlots (R := fun _ _ => True) hready hne)
    ?_ fun _ h => h)
  rintro ok b' ⟨-, -, rfl⟩ -
  exact ⟨hready, hne, rfl⟩

/-- On a healthy device a sector of the configured slot is erased. -/
theorem completes_erase (h : Configured b.ram.flash active t) (hd : b.dev.Healthy)
    (hlo : t.base ≤ address) (hhi : address + flashSectorSize ≤ t.base + slotSize)
    (haligned : address % flashSectorSize = 0) :
    Completes (erase address flashSectorSize) (fun ok b' => ok = true ∧ ∃ d, b' = b.setDev d ∧
      d.Healthy ∧ d.mem = place address flashSectorSize (fun _ => 0xFF) b.mem) b := by
  have hruns := runs_erase (R := fun _ _ => True) h hd.1 hlo hhi haligned ⟨trivial, trivial⟩
  refine ((Completes.of_runs hruns hd).and_ensures ensures_erase).mono ?_
  rintro ok b' ⟨⟨hhealthy, rfl, -⟩, d, rfl, hmem⟩
  exact ⟨rfl, d, rfl, hhealthy, hmem rfl⟩

/-- On a healthy device an erased range of the configured slot is programmed. -/
theorem completes_program (h : Configured b.ram.flash active t) (hd : b.dev.Healthy)
    (hsize : size ≠ 0) (hlo : t.base ≤ address) (hhi : address + size ≤ t.base + slotSize)
    (haligned : address % flashPhraseSize = 0) (hphrase : size % flashPhraseSize = 0)
    (herased : Erased b.dev.mem address size) :
    Completes (program address data size) (fun ok b' => ok = true ∧ ∃ d, b' = b.setDev d ∧
      d.Healthy ∧ d.mem = place address size data b.mem) b := by
  have hruns : Runs (fun _ _ => True) (program address data size) _ b :=
    runs_program h hd.1 hsize hlo hhi haligned hphrase herased fun _ _ _ _ _ _ _ _ => trivial
  refine ((Completes.of_runs hruns hd).and_ensures ensures_program).mono ?_
  rintro ok b' ⟨⟨hhealthy, rfl, -⟩, d, rfl, hmem⟩
  exact ⟨rfl, d, rfl, hhealthy, hmem rfl⟩

end BootFlash

/-! ## The journal -/

namespace BootUpdate

open BootJournal (Current WellFormed)

variable {b b' : Board} {j next : BootUpdateJournal}

/-- Nothing but the journal sectors differs. -/
def JournalOnly (m m' : Nat → Byte) : Prop :=
  ∀ a, a < journalCopy0Address ∨ metadataSlotACopy0Address ≤ a → m' a = m a

theorem JournalOnly.refl (m : Nat → Byte) : JournalOnly m m := fun _ _ => rfl

theorem JournalOnly.trans {m₁ m₂ m₃ : Nat → Byte} (h : JournalOnly m₁ m₂)
    (h' : JournalOnly m₂ m₃) : JournalOnly m₁ m₃ :=
  fun a ha => (h' a ha).trans (h a ha)

/-- The variables of `boot_update.c` and the flash agree on a journal that can be continued. -/
structure InStep (b : Board) : Prop where
  can : canContinue b.ram.update = true
  current : Current b.mem b.ram.update.current

theorem InStep.mirror (h : InStep b) (hready : b.ram.flash.ready = true) :
    Mirror b b.ram.update.current := by
  have hcan := h.can
  simp only [canContinue, Bool.and_eq_true, Bool.not_eq_true'] at hcan
  exact ⟨hready, hcan.1, hcan.2, rfl, BootJournal.loadLatest_iff.1 h.current⟩

/-- What a successful `save` of `next` leaves: it follows the record that was current on flash, and
    nothing but the journal and its mirror changes. -/
structure Logged (b : Board) (next : BootUpdateJournal) (b' : Board) : Prop where
  board : b' = withUpdate b b'.dev { b.ram.update with current := b'.ram.update.current }
  record : ∃ j, Current b.mem j ∧
    b'.ram.update.current = BootJournal.completed (j.sequence + 1) next
  only : JournalOnly b.mem b'.mem
  inStep : InStep b'

theorem ensures_save : Ensures (save next) (fun ok b' => ok = true → Logged b next b') b := by
  unfold save
  rw [Ensures.bind_getRam]
  refine .ite (fun _ => .pure fun h => by cases h) fun hc => ?_
  have hcan : canContinue b.ram.update = true := by
    rw [Bool.or_eq_true, Bool.not_eq_true', not_or, Bool.not_eq_true, Bool.not_eq_false] at hc
    simp [canContinue, hc.1, hc.2]
  refine (Ensures.of_issues BootJournal.issues_commit).bind ?_
  rintro res b' ⟨d, rfl, hends⟩
  cases res with
  | none => exact .skip fun _ _ => .pure fun h => by cases h
  | some n =>
    obtain ⟨j, hj, rfl, hn⟩ := hends.done n rfl
    dsimp only
    rw [Ensures.bind_setUpdate]
    exact .pure fun _ => ⟨rfl, ⟨j, hj, rfl⟩, hends.outside, hcan, hn⟩

theorem Logged.ram (h : Logged b next b') : b'.ram =
    { b.ram with update := { b.ram.update with current := b'.ram.update.current } } :=
  congrArg Board.ram h.board

/-- On a healthy device a well-formed record is saved. -/
theorem completes_save (h : InStep b) (hready : b.ram.flash.ready = true) (hd : b.dev.Healthy)
    (hwf : WellFormed next) :
    Completes (save next) (fun ok b' => ok = true ∧ b'.dev.Healthy ∧ Logged b next b') b := by
  have hruns := (h.mirror hready).save (S := fun _ _ => True) hd.1 hwf trivial
  refine ((Completes.of_runs hruns hd).and_ensures ensures_save).mono ?_
  rintro ok b' ⟨⟨hhealthy, rfl, -⟩, hlogged⟩
  exact ⟨rfl, hhealthy, hlogged rfl⟩

theorem ensures_setState {q : BootUpdateState} : Ensures (setState q) (fun ok b' => ok = true →
    transitionAllowed b.ram.update.current.state q.code = true ∧
      Logged b { b.ram.update.current with state := q.code } b') b := by
  unfold setState
  rw [Ensures.bind_getRam]
  refine .ite (fun _ => .pure fun h => by cases h) fun hallowed => ?_
  refine ensures_save.mono ?_
  intro ok b' hlogged hok
  exact ⟨by simpa using hallowed, hlogged hok⟩

theorem completes_setState {p q : BootUpdateState} (h : InStep b)
    (hready : b.ram.flash.ready = true) (hd : b.dev.Healthy)
    (hst : b.ram.update.current.state = p.code)
    (hallowed : transitionAllowed p.code q.code = true)
    (hwf : WellFormed { b.ram.update.current with state := q.code }) :
    Completes (setState q) (fun ok b' => ok = true ∧ b'.dev.Healthy ∧
      Logged b { b.ram.update.current with state := q.code } b') b := by
  unfold setState
  rw [Completes.bind_getRam]
  refine .ite (fun hn => absurd hn (by simp [hst, hallowed])) fun _ => ?_
  exact completes_save h hready hd hwf

/-- What a successful `BootUpdate_Begin` leaves. -/
theorem ensures_beginUpdate {active target : SlotId} {size : Nat} :
    Ensures (beginUpdate active target size) (fun ok b' => ok = true →
      InStep b' ∧ JournalOnly b.mem b'.mem ∧
      b' = withUpdate b b'.dev { b.ram.update with
        current := b'.ram.update.current, targetRevalidated := false } ∧
      ∃ n, b'.ram.update.current =
        BootJournal.completed n (beginRecord b.ram.update.current active target size)) b := by
  unfold beginUpdate
  rw [Ensures.bind_getRam]
  refine .ite (fun _ => .pure fun h => by cases h) fun _ => ?_
  refine ensures_save.bind ?_
  intro ok b' hlogged
  refine .ite (fun _ => .pure fun h => by cases h) fun hok => ?_
  have hl := hlogged (by simpa using hok)
  rw [Ensures.bind_setUpdate]
  refine .pure fun _ => ⟨⟨hl.inStep.can, hl.inStep.current⟩, hl.only, ?_, ?_⟩
  · exact congrArg (fun x : Board => { x with ram := { x.ram with update :=
      { x.ram.update with targetRevalidated := false } } }) hl.board
  · obtain ⟨j, -, hj⟩ := hl.record
    exact ⟨_, hj⟩

end BootUpdate
