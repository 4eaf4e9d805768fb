import BootloaderV2.ImageSpec
import BootloaderV2.JournalSpec
import BootloaderV2.Lifecycle
import BootloaderV2.MetadataSpec

/-!
# The durable state

What a power cut leaves, as the programs can read it: the journal register, the two metadata
registers and the flash outside the record sectors.  A program is described by the relation that
each of its commands has between the durable states before and after it.
-/

open BootConfig NorFlash CrashM TwoCopy

namespace BootFlash

def recordsEnd : Nat := 0x7E000

/-- The flash with the record sectors blanked out. -/
def image (mem : Nat → Byte) : Nat → Byte :=
  fun a => if journalCopy0Address ≤ a ∧ a < recordsEnd then 0 else mem a

theorem image_of_slot {s : Slot} (mem : Nat → Byte) {a : Nat} (h : s.Contains a) :
    image mem a = mem a := by
  have hs : s.base + slotSize ≤ journalCopy0Address := by cases s <;> decide
  unfold Slot.Contains at h
  exact if_neg (by omega)

theorem image_same (s : Slot) (mem : Nat → Byte) : s.Same (image mem) mem :=
  fun _ ha => image_of_slot mem ha

theorem image_legacy (mem : Nat → Byte) : SameLegacy (image mem) mem :=
  fun a ha ha' => if_neg (by unfold recordsEnd; unfold metadataAddress at ha; omega)

theorem loadInfo_image (mem : Nat → Byte) (slot : SlotId) :
    BootImage.loadInfo (image mem) slot = BootImage.loadInfo mem slot := by
  cases slot with
  | none => rfl
  | some s => exact BootImage.loadInfo_congr (image_legacy mem) (image_same s mem)

theorem validate_image (mem : Nat → Byte) (slot : SlotId) (info : BootImageInfo) :
    BootImage.validate (image mem) slot info = BootImage.validate mem slot info := by
  cases slot with
  | none => rfl
  | some s => exact BootImage.validate_congr (image_same s mem).payload

theorem imageValid_image (mem : Nat → Byte) (s : Slot) :
    BootLifecycle.imageValid (image mem) s = BootLifecycle.imageValid mem s := by
  simp only [BootLifecycle.imageValid, loadInfo_image]

theorem accepted_image (mem : Nat → Byte) (active target : SlotId) (h : BootImageHeader) :
    BootImageInstall.accepted (image mem) active target h =
      BootImageInstall.accepted mem active target h := by
  simp only [BootImageInstall.accepted, loadInfo_image, validate_image]

theorem published_image (mem : Nat → Byte) (target : SlotId) (h : BootImageHeader) :
    BootImageInstall.published (image mem) target h = BootImageInstall.published mem target h := by
  simp only [BootImageInstall.published, loadInfo_image]

theorem commissionAllowed_image (mem : Nat → Byte) (active : SlotId) :
    BootUpdate.commissionAllowed (image mem) active = BootUpdate.commissionAllowed mem active := by
  cases active <;> simp only [BootUpdate.commissionAllowed, loadInfo_image]

end BootFlash

/-- The durable state. -/
structure View where
  journal : Register BootUpdateJournal
  metadata : Slot → Register BootSlotMetadata
  image : Nat → Byte

namespace View

def of (mem : Nat → Byte) : View :=
  ⟨BootJournal.register mem, fun s => BootMetadata.register s mem, BootFlash.image mem⟩

def setMetadata (v : View) (s : Slot) (g : Register BootSlotMetadata) : View :=
  { v with metadata := Function.update v.metadata s g }

/-- The current journal record. -/
def Journal (v : View) (j : BootUpdateJournal) : Prop := ∃ o, v.journal = .valid j o

/-- The current metadata record of a slot. -/
def Metadata (v : View) (s : Slot) (r : BootSlotMetadata) : Prop := ∃ o, v.metadata s = .valid r o

variable {v : View} {s : Slot} {g : Register BootSlotMetadata}

@[simp] theorem setMetadata_journal : (v.setMetadata s g).journal = v.journal := rfl

@[simp] theorem setMetadata_image : (v.setMetadata s g).image = v.image := rfl

@[simp] theorem setMetadata_self : (v.setMetadata s g).metadata s = g := Function.update_self ..

@[simp] theorem setMetadata_other {t : Slot} (h : t ≠ s) :
    (v.setMetadata s g).metadata t = v.metadata t := Function.update_of_ne h ..

theorem setMetadata_eq : v.setMetadata s (v.metadata s) = v := by
  simp only [setMetadata, Function.update_eq_self]

@[simp] theorem setMetadata_setMetadata {g' : Register BootSlotMetadata} :
    (v.setMetadata s g).setMetadata s g' = v.setMetadata s g' := by
  simp only [setMetadata, Function.update_idem]

theorem Journal.unique {j j' : BootUpdateJournal} (h : v.Journal j) (h' : v.Journal j') :
    j = j' := by
  obtain ⟨o, h⟩ := h
  obtain ⟨o', h'⟩ := h'
  exact (Register.valid.inj (h.symm.trans h')).1

theorem Metadata.unique {r r' : BootSlotMetadata} (h : v.Metadata s r) (h' : v.Metadata s r') :
    r = r' := by
  obtain ⟨o, h⟩ := h
  obtain ⟨o', h'⟩ := h'
  exact (Register.valid.inj (h.symm.trans h')).1

/-! ## What a command can change -/

theorem journal_congr {m m' : Nat → Byte}
    (h : ∀ a, journalCopy0Address ≤ a → a < metadataSlotACopy0Address → m' a = m a) :
    BootJournal.register m' = BootJournal.register m := by
  refine BootJournal.recordFormat.register_congr fun k i hi => h _ ?_ ?_
  · exact le_trans (Nat.le_add_right _ _) (Nat.le_add_right _ _)
  · have hi' : i < 128 := hi
    have hk : FlashDriver.journalAddress k ≤ 0x79000 := by
      rcases eq_zero_or_one k with rfl | rfl <;> decide
    show FlashDriver.journalAddress k + i < 0x7A000
    omega

theorem metadata_congr {m m' : Nat → Byte}
    (h : ∀ k a, FlashDriver.metadataAddress s k ≤ a →
      a < FlashDriver.metadataAddress s k + flashSectorSize → m' a = m a) :
    BootMetadata.register s m' = BootMetadata.register s m := by
  refine (BootMetadata.recordFormat s).register_congr fun k i hi => h k _ ?_ ?_
  · exact Nat.le_add_right _ _
  · have hi' : i < 80 := hi
    show FlashDriver.metadataAddress s k + i < FlashDriver.metadataAddress s k + 4096
    omega

theorem metadataAddress_range (s : Slot) (k : Fin 2) :
    metadataSlotACopy0Address ≤ FlashDriver.metadataAddress s k ∧
      FlashDriver.metadataAddress s k + flashSectorSize ≤ BootFlash.recordsEnd := by
  revert k
  cases s <;> decide

theorem journalAddress_range (k : Fin 2) :
    journalCopy0Address ≤ FlashDriver.journalAddress k ∧
      FlashDriver.journalAddress k + flashSectorSize ≤ metadataSlotACopy0Address := by
  revert k
  decide

theorem image_congr {base size : Nat} {m m' : Nat → Byte} (h : SameOutside base size m m')
    (hlo : journalCopy0Address ≤ base) (hhi : base + size ≤ BootFlash.recordsEnd) :
    BootFlash.image m' = BootFlash.image m := by
  funext a
  unfold BootFlash.image
  split
  · rfl
  · exact h a (by omega)

/-- A command in a journal sector changes the journal only. -/
theorem of_journal {m m' : Nat → Byte} {k : Fin 2}
    (h : SameOutside (FlashDriver.journalAddress k) flashSectorSize m m') :
    View.of m' = { View.of m with journal := BootJournal.register m' } := by
  have hj := journalAddress_range k
  have hmeta : ∀ s, BootMetadata.register s m' = BootMetadata.register s m := by
    intro s
    refine metadata_congr fun j a ha ha' => h a ?_
    have := metadataAddress_range s j
    omega
  have himage : BootFlash.image m' = BootFlash.image m := by
    refine image_congr h hj.1 (le_trans hj.2 ?_)
    decide
  simp only [View.of, hmeta, himage]

/-- A command in a metadata sector changes the metadata of the slot only. -/
theorem of_metadata {m m' : Nat → Byte} {k : Fin 2}
    (h : SameOutside (FlashDriver.metadataAddress s k) flashSectorSize m m') :
    View.of m' = (View.of m).setMetadata s (BootMetadata.register s m') := by
  have hk := metadataAddress_range s k
  have hjournal : BootJournal.register m' = BootJournal.register m :=
    journal_congr fun a ha ha' => h a (by omega)
  have himage : BootFlash.image m' = BootFlash.image m := by
    refine image_congr h (le_trans ?_ hk.1) hk.2
    decide
  have hother : BootMetadata.register s.other m' = BootMetadata.register s.other m := by
    refine metadata_congr fun j a ha ha' => h a ?_
    have := FlashDriver.metadataAddress_apart s k j
    omega
  simp only [View.of, setMetadata, hjournal, himage, View.mk.injEq, true_and, and_true]
  funext t
  by_cases ht : t = s
  · rw [ht, Function.update_self]
  · rw [Function.update_of_ne ht, Slot.eq_other_of_ne ht, hother]

/-- A command in a slot changes the images only. -/
theorem of_slot {m m' : Nat → Byte} (h : SameOutside s.base slotSize m m') :
    View.of m' = { View.of m with image := BootFlash.image m' } ∧
      SameOutside s.base slotSize (BootFlash.image m) (BootFlash.image m') := by
  have hs : s.base + slotSize ≤ journalCopy0Address := by cases s <;> decide
  have hjournal : BootJournal.register m' = BootJournal.register m :=
    journal_congr fun a ha _ => h a (by omega)
  have hmeta : ∀ t, BootMetadata.register t m' = BootMetadata.register t m := by
    intro t
    refine metadata_congr fun j a ha _ => h a ?_
    have := metadataAddress_range t j
    have hjm : journalCopy0Address ≤ metadataSlotACopy0Address := by decide
    omega
  refine ⟨by simp only [View.of, hjournal, hmeta], fun a ha => ?_⟩
  unfold BootFlash.image
  split
  · rfl
  · exact h a ha

end View

/-- The durable state of a board. -/
def Board.view (b : Board) : View := View.of b.dev.mem

@[simp] theorem Board.view_setDev (b : Board) (d : Device Note) :
    (b.setDev d).view = View.of d.mem := rfl

/-! ## Programs as steps on the durable state -/

/-- The second device is the first after commands each of which is an `R`-step. -/
def Trail (R : View → View → Prop) : Device Note → Device Note → Prop :=
  Evolves fun _ m m' => R (View.of m) (View.of m')

namespace Trail

variable {R R' : View → View → Prop} {d d' d'' : Device Note}

theorem refl (d : Device Note) : Trail R d d := Evolves.refl d

theorem trans (h : Trail R d d') (h' : Trail R d' d'') : Trail R d d'' := Evolves.trans h h'

theorem mono (hR : ∀ v v', R v v' → R' v v') (h : Trail R d d') : Trail R' d d' :=
  Evolves.mono (fun _ _ _ => hR _ _) h

theorem faultless (h : Trail R d d') (hd : d.Faultless) : d'.Faultless := Evolves.faultless h hd

theorem uncut (h : Trail R d d') (hd : d.Uncut) : d'.Uncut := Evolves.uncut h hd

theorem invariant {P : View → Prop} (h : Trail R d d')
    (hstep : ∀ m m', R (View.of m) (View.of m') → P (View.of m) → P (View.of m'))
    (hd : P (View.of d.mem)) : P (View.of d'.mem) :=
  Evolves.invariant (P := fun m => P (View.of m)) h (fun _ => hstep) hd

end Trail

/-- `m` run from `b` takes `R`-steps; it returns in `Q` unless the power is cut. -/
def Runs {α : Type} (R : View → View → Prop) (m : BootM α) (Q : α → Board → Prop) (b : Board) :
    Prop :=
  wp m (fun a b' => Trail R b.dev b'.dev ∧ Q a b')
    (fun b' => Trail R b.dev b'.dev ∧ ¬ b.dev.Uncut) b

namespace Runs

variable {α β : Type} {R R' : View → View → Prop} {m : BootM α} {f : α → BootM β}
  {Q Q' : α → Board → Prop} {P : β → Board → Prop} {b : Board}

theorem pure {a : α} (h : Q a b) : Runs R (Pure.pure a) Q b := (wp_pure a).2 ⟨.refl _, h⟩

/-- Sequencing. -/
theorem bind (h : Runs R m Q b)
    (hf : ∀ a b', Trail R b.dev b'.dev → Q a b' → Runs R (f a) P b') : Runs R (m >>= f) P b := by
  refine wp_seq h ?_ fun _ hb => hb
  rintro a b' ⟨htrail, hq⟩
  refine wp_mono (hf a b' htrail hq) ?_ ?_
  · rintro c b'' ⟨htrail', hp⟩
    exact ⟨htrail.trans htrail', hp⟩
  · rintro b'' ⟨htrail', hcut⟩
    exact ⟨htrail.trans htrail', fun hu => hcut (htrail.uncut hu)⟩

theorem assoc {γ : Type} {g : β → BootM γ} {P : γ → Board → Prop} :
    Runs R (m >>= f >>= g) P b ↔ Runs R (m >>= fun a => f a >>= g) P b := by
  simp only [Runs, wp_bind]

/-- The rule of consequence. -/
theorem mono (h : Runs R m Q b) (hQ : ∀ a b', Trail R b.dev b'.dev → Q a b' → Q' a b') :
    Runs R m Q' b :=
  wp_mono h (fun a b' hb => ⟨hb.1, hQ a b' hb.1 hb.2⟩) fun _ hb => hb

/-- The commands of a program as part of what is known when it returns. -/
theorem trail (h : Runs R m Q b) : Runs R m (fun a b' => Trail R b.dev b'.dev ∧ Q a b') b :=
  h.mono fun _ _ ht hq => ⟨ht, hq⟩

theorem weaken (hR : ∀ v v', R v v' → R' v v') (h : Runs R m Q b) : Runs R' m Q b :=
  wp_mono h (fun _ _ hb => ⟨hb.1.mono hR, hb.2⟩) fun _ hb => ⟨hb.1.mono hR, hb.2⟩

theorem ite {c : Prop} [Decidable c] {n : BootM α} (ht : c → Runs R m Q b)
    (hf : ¬ c → Runs R n Q b) : Runs R (if c then m else n) Q b := by
  split
  · exact ht ‹_›
  · exact hf ‹_›

@[simp] theorem bind_getRam {f : Ram → BootM β} :
    Runs R (BootM.getRam >>= f) P b ↔ Runs R (f b.ram) P b := Iff.rfl

@[simp] theorem bind_flash {f : (Nat → Byte) → BootM β} :
    Runs R (BootM.flash >>= f) P b ↔ Runs R (f b.mem) P b := Iff.rfl

@[simp] theorem bind_get {f : Board → BootM β} :
    Runs R (CrashM.get >>= f) P b ↔ Runs R (f b) P b := Iff.rfl

@[simp] theorem bind_setFlash {n : BootM β} {g : BootFlash.State → BootFlash.State} :
    Runs R (BootM.setFlash g >>= fun _ => n) P b ↔
      Runs R n P { b with ram := { b.ram with flash := g b.ram.flash } } := Iff.rfl

@[simp] theorem bind_setUpdate {n : BootM β} {g : BootUpdate.State → BootUpdate.State} :
    Runs R (BootM.setUpdate g >>= fun _ => n) P b ↔
      Runs R n P { b with ram := { b.ram with update := g b.ram.update } } := Iff.rfl

@[simp] theorem bind_setLifecycle {n : BootM β} {g : BootLifecycle.State → BootLifecycle.State} :
    Runs R (BootM.setLifecycle g >>= fun _ => n) P b ↔
      Runs R n P { b with ram := { b.ram with lifecycle := g b.ram.lifecycle } } := Iff.rfl

@[simp] theorem bind_setManager {n : BootM β} {g : BootManager.State → BootManager.State} :
    Runs R (BootM.setManager g >>= fun _ => n) P b ↔
      Runs R n P { b with ram := { b.ram with manager := g b.ram.manager } } := Iff.rfl

@[simp] theorem bind_setProgramming {n : BootM β}
    {g : BootProgramming.Context → BootProgramming.Context} :
    Runs R (BootM.setProgramming g >>= fun _ => n) P b ↔
      Runs R n P { b with ram := { b.ram with programming := g b.ram.programming } } := Iff.rfl

@[simp] theorem bind_setSecurity {n : BootM β} {g : BootSecurity.State → BootSecurity.State} :
    Runs R (BootM.setSecurity g >>= fun _ => n) P b ↔
      Runs R n P { b with ram := { b.ram with security := g b.ram.security } } := Iff.rfl

@[simp] theorem bind_setUds {n : BootM β} {g : BootUds.State → BootUds.State} :
    Runs R (BootM.setUds g >>= fun _ => n) P b ↔
      Runs R n P { b with ram := { b.ram with uds := g b.ram.uds } } := Iff.rfl

@[simp] theorem bind_setRetained {n : BootM β} {r : RetainedRecord} :
    Runs R (BootM.setRetained r >>= fun _ => n) P b ↔ Runs R n P { b with retained := r } := Iff.rfl

end Runs
