import Mathlib.Logic.Relation
import BootloaderV2.Server

/-!
# What is done to the journal

Seen from the journal a program takes four kinds of actions: it saves a record, it fails to save one
and gives the storage up, it writes to a slot, or it does something else.  `Traced` says that a
program takes such actions only, and it is proved of every function from the bottom up.
-/

open BootConfig NorFlash CrashM TwoCopy

open BootJournal (Current Keeping WellFormed)

/-! ## The fates a program consumes -/

/-- The board with other fates for the coming commands. -/
def Board.withFates (b : Board) (fates : List Fate) : Board := b.setDev { b.dev with fates := fates }

/-- Some command between the two devices reported a failure. -/
def NorFlash.Device.FailedTo {ε : Type} (d d' : Device ε) : Prop :=
  ∃ pre, d.fates = pre ++ d'.fates ∧ ∃ n, Fate.fail n ∈ pre

/-- The program looks at the fates of its own commands only: it runs in the same way when there are
    fewer left for what comes after it. -/
def Local {α : Type} (m : BootM α) : Prop := ∀ b a b', m b = .done a b' →
  ∃ pre, b.dev.fates = pre ++ b'.dev.fates ∧ ∀ rest, rest <+: b'.dev.fates →
    m (b.withFates (pre ++ rest)) = .done a (b'.withFates rest)

namespace Local

variable {α β : Type} {m n : BootM α} {f : α → BootM β}

theorem pure (a : α) : Local (Pure.pure a : BootM α) := by
  intro b a' b' h
  cases h
  exact ⟨[], rfl, fun _ _ => rfl⟩

theorem bind (hm : Local m) (hf : ∀ a, Local (f a)) : Local (m >>= f) := by
  intro b c b₂ h
  simp only [Bind.bind] at h
  cases hrun : m b with
  | cut s =>
    rw [hrun] at h
    cases h
  | done a b₁ =>
    rw [hrun] at h
    obtain ⟨pre₁, hpre₁, hrest₁⟩ := hm b a b₁ hrun
    obtain ⟨pre₂, hpre₂, hrest₂⟩ := hf a b₁ c b₂ h
    refine ⟨pre₁ ++ pre₂, by rw [hpre₁, hpre₂, List.append_assoc], fun rest hrest => ?_⟩
    have hmid : pre₂ ++ rest <+: b₁.dev.fates := by
      rw [hpre₂]
      exact (List.prefix_append_right_inj _).2 hrest
    simp only [Bind.bind, List.append_assoc, hrest₁ _ hmid, hrest₂ rest hrest]

theorem ite {c : Prop} [Decidable c] (hm : Local m) (hn : Local n) :
    Local (if c then m else n) := by
  split
  · exact hm
  · exact hn

theorem getRam {g : Ram → BootM β} (h : ∀ r, Local (g r)) : Local (BootM.getRam >>= g) :=
  fun b => h b.ram b

theorem flash {g : (Nat → Byte) → BootM β} (h : ∀ mem, Local (g mem)) :
    Local (BootM.flash >>= g) :=
  fun b => h b.mem b

/-- A program may read the board first, if it does not look at the fates. -/
theorem read {g : Board → BootM β} (h : ∀ b, Local (g b))
    (hg : ∀ b fates, g (b.withFates fates) = g b) : Local (CrashM.get >>= g) := by
  intro b a b' hrun
  obtain ⟨pre, hpre, hrest⟩ := h b b a b' hrun
  refine ⟨pre, hpre, fun rest hr => ?_⟩
  show g (b.withFates _) (b.withFates _) = _
  rw [hg]
  exact hrest rest hr

theorem setFlash (g : BootFlash.State → BootFlash.State) : Local (BootM.setFlash g) := by
  intro b a b' h
  cases h
  exact ⟨[], rfl, fun _ _ => rfl⟩

theorem issue (c : Command) : Local (BootM.device (NorFlash.issue c)) := by
  rintro ⟨⟨mem, fates, log⟩, ram, retained, hw⟩ a b' h
  cases fates with
  | nil =>
    cases h
    refine ⟨[], rfl, fun rest hrest => ?_⟩
    obtain rfl := List.prefix_nil.1 hrest
    rfl
  | cons fate fates =>
    cases fate with
    | ok =>
      cases h
      exact ⟨[.ok], rfl, fun _ _ => rfl⟩
    | cut k => cases h
    | fail k =>
      cases h
      exact ⟨[.fail k], rfl, fun _ _ => rfl⟩

theorem withWindow {start stop : Nat} {m : BootM Bool} (h : Local m) :
    Local (FlashDriver.withWindow start stop m) :=
  .getRam fun _ => (setFlash _).bind fun _ => h.bind fun _ => (setFlash _).bind fun _ => .pure _

theorem driverErase {address size : Nat} : Local (FlashDriver.erase address size) :=
  .getRam fun _ => .ite (.pure _) <| (issue _).bind fun _ => .ite (.pure _) <|
    .flash fun _ => .pure _

theorem verify {address size : Nat} {data : Nat → Byte} :
    Local (FlashDriver.verify address data size) :=
  .getRam fun _ => .ite (.pure _) <| .flash fun _ => .pure _

theorem programLoop {address offset n : Nat} {data : Nat → Byte} :
    Local (FlashDriver.programLoop address data offset n) := by
  induction n generalizing offset with
  | zero => exact .pure _
  | succ n ih =>
    unfold FlashDriver.programLoop FlashDriver.programPhrase
    exact (Local.ite (.pure _) (issue _)).bind fun _ => .ite (.pure _) <|
      verify.bind fun _ => .ite (.pure _) ih

theorem driverProgram {address size : Nat} {data : Nat → Byte} :
    Local (FlashDriver.program address data size) :=
  .getRam fun _ => .ite (.pure _) programLoop

theorem journalErase {k : Fin 2} : Local (BootJournalStorage.erase k) :=
  .getRam fun _ => .ite (.pure _) driverErase.withWindow

theorem journalProgram {k : Fin 2} {offset size : Nat} {data : Nat → Byte} :
    Local (BootJournalStorage.program k offset data size) :=
  .getRam fun _ => .ite (.pure _) <| .ite (.pure _) driverProgram.withWindow

theorem programPhrases {k : Fin 2} {data : Nat → Byte} {offset n : Nat} :
    Local (TwoCopy.programPhrases BootJournalStorage.port k data offset n) := by
  induction n generalizing offset with
  | zero => exact .pure _
  | succ n ih => exact journalProgram.bind fun _ => .ite ih (.pure _)

theorem writeCopy {k : Fin 2} {next : BootUpdateJournal} :
    Local (TwoCopy.writeCopy BootJournal.recordFormat BootJournalStorage.port k next) := by
  refine .ite (.pure _) <| Local.bind journalErase fun _ => .ite (.pure _) <|
    programPhrases.bind fun _ => .ite (.pure _) <| .read (fun b => ?_) fun _ _ => rfl
  exact .ite (.pure _) (.pure _)

theorem commit {next : BootUpdateJournal} : Local (BootJournal.commit next) := by
  refine .flash fun mem => ?_
  cases BootJournal.loadLatest mem with
  | valid copy previous => exact .ite (.pure _) writeCopy
  | empty => exact .ite (.pure _) writeCopy
  | invalid => exact .ite (.pure _) writeCopy

end Local

/-- A valid record that cannot be committed after a current one has met a failing command. -/
theorem BootJournal.failed_of_commit {b b' : Board} {j r : BootUpdateJournal}
    (hready : b.ram.flash.ready = true) (hj : Current b.mem j) (hwf : WellFormed r)
    (h : commit r b = .done none b') : b.dev.FailedTo b'.dev := by
  obtain ⟨k, hl⟩ := hj
  obtain ⟨pre, hpre, hrest⟩ := Local.commit b none b' h
  have hrun := hrest [] List.nil_prefix
  rw [List.append_nil] at hrun
  -- the same commit on a device that has no other fates than those consumed
  obtain ⟨d, -, hwritten⟩ := wp_of_eq_done
    (wp_commit (b := b.withFates pre) (r := r) hready hl hwf) hrun
  refine ⟨pre, hpre, ?_⟩
  by_contra hno
  push Not at hno
  exact hwritten.fault rfl hno

/-! ## Actions -/

/-- The variables that say what the journal holds are the same. -/
structure SameJournal (b b' : Board) : Prop where
  valid : b'.ram.update.journalValid = b.ram.update.journalValid
  fault : b'.ram.update.storageFault = b.ram.update.storageFault
  current : b'.ram.update.current = b.ram.update.current

theorem SameJournal.refl (b : Board) : SameJournal b b := ⟨rfl, rfl, rfl⟩

theorem SameJournal.of_update {b b' : Board} (h : b'.ram.update = b.ram.update) :
    SameJournal b b' := by
  refine ⟨?_, ?_, ?_⟩ <;> rw [h]

/-- A command in a metadata sector. -/
def MetadataOnly : CommandRel := fun c _ _ => c.InMetadata

/-- A command inside one slot. -/
def SlotOnly : CommandRel := fun c _ _ =>
  ∃ s : Slot, s.base ≤ c.address ∧ c.address + c.size ≤ s.base + slotSize

/-- One action. -/
inductive Act : Board → Board → Prop where
  /-- neither the journal nor a slot is written -/
  | other {b b' : Board} (hev : Evolves MetadataOnly b.dev b'.dev)
    (hready : b'.ram.flash.ready = b.ram.flash.ready) (hsame : SameJournal b b') : Act b b'
  /-- a slot is written while the storage of the journal is sound -/
  | slot {b : Board} {d : Device Note} (hfault : b.ram.update.storageFault = false)
    (hev : Evolves SlotOnly b.dev d) : Act b (b.setDev d)
  /-- a record with valid fields is committed -/
  | saved {b : Board} {d : Device Note} (next : BootUpdateJournal) (hwf : WellFormed next)
    (hfault : b.ram.update.storageFault = false) (hev : Evolves Keeping b.dev d)
    (hnext : Current d.mem (BootJournal.completed (b.ram.update.current.sequence + 1) next)) :
    Act b (BootUpdate.withUpdate b d { b.ram.update with
      current := BootJournal.completed (b.ram.update.current.sequence + 1) next })
  /-- a record with valid fields meets a failing command, and the storage is given up -/
  | failed {b : Board} {d : Device Note} (next : BootUpdateJournal) (hwf : WellFormed next)
    (hfault : b.ram.update.storageFault = false) (hev : Evolves Keeping b.dev d)
    (hkept : ∃ j, Current d.mem j) (hcommand : b.dev.FailedTo d) :
    Act b (BootUpdate.withUpdate b d { b.ram.update with storageFault := true })

/-- The variables agree with a journal on flash, unless its storage has been given up. -/
structure Mirrored (b : Board) : Prop where
  ready : b.ram.flash.ready = true
  valid : b.ram.update.journalValid = true
  stored : ∃ j, Current b.mem j
  current : b.ram.update.storageFault = false → Current b.mem b.ram.update.current

theorem Mirrored.congr {b b' : Board} (h : Mirrored b) (hmem : b'.mem = b.mem)
    (hready : b'.ram.flash.ready = b.ram.flash.ready) (hsame : SameJournal b b') :
    Mirrored b' := by
  refine ⟨hready.trans h.ready, hsame.valid.trans h.valid, ?_, fun hf => ?_⟩
  · rw [hmem]
    exact h.stored
  · rw [hmem, hsame.current]
    exact h.current (hsame.fault.symm.trans hf)

namespace Act

variable {b b' : Board}

/-- Commands away from the journal leave the current record. -/
theorem current_of_evolves {R : CommandRel} {d d' : Device Note} {j : BootUpdateJournal}
    (h : Evolves R d d') (hR : ∀ c m m', R c m m' →
      c.address + c.size ≤ journalCopy0Address ∨ metadataSlotACopy0Address ≤ c.address)
    (hj : Current d.mem j) : Current d'.mem j := by
  induction h with
  | refl => exact hj
  | command c n _ hc ih =>
    have hrange := hR _ _ _ hc
    exact ih.congr fun a ha ha' => c.effect_outside n _ (by omega)

theorem current_of_metadata {d d' : Device Note} {j : BootUpdateJournal}
    (h : Evolves MetadataOnly d d') (hj : Current d.mem j) : Current d'.mem j := by
  refine current_of_evolves h ?_ hj
  rintro c m m' ⟨s, k, hlo, -⟩
  have hk := View.metadataAddress_range s k
  omega

theorem current_of_slot {d d' : Device Note} {j : BootUpdateJournal}
    (h : Evolves SlotOnly d d') (hj : Current d.mem j) : Current d'.mem j := by
  refine current_of_evolves h ?_ hj
  rintro c m m' ⟨s, -, hhi⟩
  have hs : s.base + slotSize ≤ journalCopy0Address := by cases s <;> decide
  omega

/-- Every action keeps the variables and the flash in agreement. -/
theorem mirrored (h : Act b b') (hb : Mirrored b) : Mirrored b' := by
  cases h with
  | other hev hready hsame =>
    obtain ⟨j, hj⟩ := hb.stored
    refine ⟨hready.trans hb.ready, hsame.valid.trans hb.valid, ⟨j, current_of_metadata hev hj⟩, ?_⟩
    intro hf
    rw [hsame.current]
    exact current_of_metadata hev (hb.current (hsame.fault.symm.trans hf))
  | slot hfault hev =>
    obtain ⟨j, hj⟩ := hb.stored
    exact ⟨hb.ready, hb.valid, ⟨j, current_of_slot hev hj⟩,
      fun hf => current_of_slot hev (hb.current hf)⟩
  | saved next hwf hfault hev hnext => exact ⟨hb.ready, hb.valid, ⟨_, hnext⟩, fun _ => hnext⟩
  | failed next hwf hfault hev hkept hcommand =>
    exact ⟨hb.ready, hb.valid, hkept, fun hf => by cases hf⟩

/-- Once the storage is given up it stays so, and neither the journal nor a slot is written. -/
theorem frozen (h : Act b b') (hf : b.ram.update.storageFault = true) :
    SameJournal b b' ∧ Evolves MetadataOnly b.dev b'.dev := by
  cases h with
  | other hev hready hsame => exact ⟨hsame, hev⟩
  | slot hfault hev => exact absurd (hfault.symm.trans hf) (by decide)
  | saved next hwf hfault hev hnext => exact absurd (hfault.symm.trans hf) (by decide)
  | failed next hwf hfault hev hkept hcommand => exact absurd (hfault.symm.trans hf) (by decide)

/-- The storage is given up for a command that failed. -/
theorem failedTo (h : Act b b') (hf : b.ram.update.storageFault = false)
    (hf' : b'.ram.update.storageFault = true) : b.dev.FailedTo b'.dev := by
  cases h with
  | other hev hready hsame => exact absurd (hf'.symm.trans (hsame.fault.trans hf)) (by decide)
  | slot hfault hev => exact absurd (hf'.symm.trans hf) (by decide)
  | saved next hwf hfault hev hnext => exact absurd (hf'.symm.trans hf) (by decide)
  | failed next hwf hfault hev hkept hcommand => exact hcommand

theorem evolves (h : Act b b') : Evolves (fun _ _ _ => True) b.dev b'.dev := by
  cases h with
  | other hev hready hsame => exact hev.mono fun _ _ _ _ => trivial
  | slot hfault hev => exact hev.mono fun _ _ _ _ => trivial
  | saved next hwf hfault hev hnext => exact hev.mono fun _ _ _ _ => trivial
  | failed next hwf hfault hev hkept hcommand => exact hev.mono fun _ _ _ _ => trivial

end Act

/-- A device has consumed the first of its fates. -/
theorem NorFlash.Evolves.consumed {ε : Type} {R : Command → (Nat → Byte) → (Nat → Byte) → Prop}
    {d d' : Device ε} (h : Evolves R d d') : ∃ pre, d.fates = pre ++ d'.fates := by
  induction h with
  | refl => exact ⟨[], rfl⟩
  | @command d' c n _ _ ih =>
    obtain ⟨pre, hpre⟩ := ih
    refine ⟨pre ++ d'.fates.take 1, ?_⟩
    rw [hpre, Device.after_fates, List.append_assoc, ← List.drop_one, List.take_append_drop]

/-- Actions one after another. -/
abbrev Acts : Board → Board → Prop := Relation.ReflTransGen Act

namespace Acts

variable {b b' : Board}

theorem mirrored (h : Acts b b') (hb : Mirrored b) : Mirrored b' := by
  induction h with
  | refl => exact hb
  | tail _ hact ih => exact hact.mirrored ih

theorem frozen (h : Acts b b') (hf : b.ram.update.storageFault = true) :
    SameJournal b b' ∧ Evolves MetadataOnly b.dev b'.dev := by
  induction h with
  | refl => exact ⟨.refl b, .refl _⟩
  | tail _ hact ih =>
    obtain ⟨hsame, hev⟩ := ih
    obtain ⟨hsame', hev'⟩ := hact.frozen (hsame.fault.trans hf)
    exact ⟨⟨hsame'.valid.trans hsame.valid, hsame'.fault.trans hsame.fault,
      hsame'.current.trans hsame.current⟩, hev.trans hev'⟩

theorem evolves (h : Acts b b') : Evolves (fun _ _ _ => True) b.dev b'.dev := by
  induction h with
  | refl => exact .refl _
  | tail _ hact ih => exact ih.trans hact.evolves

theorem failedTo (h : Acts b b') (hf : b.ram.update.storageFault = false)
    (hf' : b'.ram.update.storageFault = true) : b.dev.FailedTo b'.dev := by
  induction h with
  | refl => exact absurd (hf.symm.trans hf') (by decide)
  | @tail c c' hacts hact ih =>
    obtain ⟨post, hpost⟩ := hact.evolves.consumed
    by_cases hc : c.ram.update.storageFault = true
    · obtain ⟨pre, hpre, n, hn⟩ := ih hc
      refine ⟨pre ++ post, ?_, n, List.mem_append_left _ hn⟩
      rw [hpre, hpost, List.append_assoc]
    · obtain ⟨pre, hpre⟩ := (Acts.evolves hacts).consumed
      obtain ⟨fate, hfate, n, hn⟩ := hact.failedTo (by simpa using hc) hf'
      refine ⟨pre ++ fate, ?_, n, List.mem_append_right _ hn⟩
      rw [hpre, hfate, List.append_assoc]

end Acts

/-! ## Programs -/

/-- The power was cut after some actions and further commands, which write to the metadata only if
    the storage of the journal has been given up. -/
def Interrupted (b b' : Board) : Prop := ∃ b₁, Acts b b₁ ∧
  Evolves (fun c _ _ => b₁.ram.update.storageFault = true → c.InMetadata) b₁.dev b'.dev

/-- The program takes actions, and returns in `Q` or is interrupted. -/
def Traced {α : Type} (m : BootM α) (Q : α → Board → Prop) (b : Board) : Prop :=
  wp m (fun a b' => Acts b b' ∧ Q a b') (Interrupted b) b

namespace Traced

variable {α β : Type} {m n : BootM α} {f : α → BootM β} {Q Q' : α → Board → Prop}
  {P : β → Board → Prop} {b : Board}

theorem pure {a : α} (h : Q a b) : Traced (Pure.pure a) Q b := (wp_pure a).2 ⟨.refl, h⟩

theorem bind (h : Traced m Q b) (hf : ∀ a b', Acts b b' → Q a b' → Traced (f a) P b') :
    Traced (m >>= f) P b := by
  refine wp_seq h ?_ fun _ hc => hc
  rintro a b' ⟨hacts, hq⟩
  refine wp_mono (hf a b' hacts hq) (fun _ _ h => ⟨hacts.trans h.1, h.2⟩) ?_
  rintro b'' ⟨b₁, hb₁, hev⟩
  exact ⟨b₁, hacts.trans hb₁, hev⟩

theorem mono (h : Traced m Q b) (hQ : ∀ a b', Q a b' → Q' a b') : Traced m Q' b :=
  wp_mono h (fun a b' h => ⟨h.1, hQ a b' h.2⟩) fun _ h => h

theorem ite {c : Prop} [Decidable c] (ht : c → Traced m Q b) (hf : ¬ c → Traced n Q b) :
    Traced (if c then m else n) Q b := by
  split
  · exact ht ‹_›
  · exact hf ‹_›

theorem bind_getRam {g : Ram → BootM β} :
    Traced (BootM.getRam >>= g) P b ↔ Traced (g b.ram) P b := Iff.rfl

theorem bind_flash {g : (Nat → Byte) → BootM β} :
    Traced (BootM.flash >>= g) P b ↔ Traced (g b.mem) P b := Iff.rfl

/-- What is known of the program in other ways holds where it returns. -/
theorem and_issues {R : CommandRel} (h : Traced m Q b) (h' : Issues R m Q' b) :
    Traced m (fun a b' => Q a b' ∧ Q' a b') b :=
  wp_mono (wp_and h h') (fun _ _ h => ⟨h.1.1, h.1.2, h.2.2⟩) fun _ h => h.1

/-- Metadata at most is written, and the variables of the journal are left alone. -/
theorem of_metadata (h : Issues MetadataOnly m (fun a b' => b'.ram.flash.ready = b.ram.flash.ready ∧
    SameJournal b b' ∧ Q a b') b) : Traced m Q b := by
  refine wp_mono h ?_ fun b' hev => ⟨b, .refl, hev.mono fun _ _ _ hc _ => hc⟩
  rintro a b' ⟨hev, hready, hsame, hq⟩
  exact ⟨.single (.other hev hready hsame), hq⟩

/-- A slot is written while the storage of the journal is sound. -/
theorem of_slot (hfault : b.ram.update.storageFault = false)
    (h : Issues SlotOnly m (fun _ b' => ∃ d, b' = b.setDev d) b) :
    Traced m (fun _ b' => ∃ d, b' = b.setDev d) b := by
  refine wp_mono h ?_ fun b' hev => ⟨b, .refl, hev.mono fun _ _ _ _ hf => ?_⟩
  · rintro a b' ⟨hev, d, rfl⟩
    exact ⟨.single (.slot hfault hev), d, rfl⟩
  · exact absurd (hfault.symm.trans hf) (by decide)

/-- The variables change, but not those of the journal. -/
theorem of_ram {a : α} (ram : Ram) (r : RetainedRecord)
    (hm : m b = .done a { b with ram := ram, retained := r })
    (hready : ram.flash.ready = b.ram.flash.ready)
    (hsame : SameJournal b { b with ram := ram, retained := r })
    (hq : Q a { b with ram := ram, retained := r }) : Traced m Q b := by
  unfold Traced wp
  rw [hm]
  exact ⟨.single (.other (.refl _) hready hsame), hq⟩

end Traced

/-- From every board in agreement with its journal the program takes actions only. -/
def Minds {α : Type} (m : BootM α) : Prop := ∀ b, Mirrored b → Traced m (fun _ _ => True) b

namespace Minds

variable {α β : Type} {m n : BootM α} {f : α → BootM β}

theorem bind (hm : Minds m) (hf : ∀ a, Minds (f a)) : Minds (m >>= f) :=
  fun b hb => (hm b hb).bind fun a b' hacts _ => hf a b' (hacts.mirrored hb)

theorem setFlash (g : BootFlash.State → BootFlash.State) (hg : ∀ f, (g f).ready = f.ready) :
    Minds (BootM.setFlash g) :=
  fun b _ => .of_ram { b.ram with flash := g b.ram.flash } b.retained rfl (hg _) ⟨rfl, rfl, rfl⟩
    trivial

theorem setProgramming (g : BootProgramming.Context → BootProgramming.Context) :
    Minds (BootM.setProgramming g) :=
  fun b _ => .of_ram { b.ram with programming := g b.ram.programming } b.retained rfl rfl
    ⟨rfl, rfl, rfl⟩ trivial

theorem setSecurity (g : BootSecurity.State → BootSecurity.State) : Minds (BootM.setSecurity g) :=
  fun b _ => .of_ram { b.ram with security := g b.ram.security } b.retained rfl rfl ⟨rfl, rfl, rfl⟩
    trivial

theorem setUds (g : BootUds.State → BootUds.State) : Minds (BootM.setUds g) :=
  fun b _ => .of_ram { b.ram with uds := g b.ram.uds } b.retained rfl rfl ⟨rfl, rfl, rfl⟩ trivial

/-- Whether the image of the target has been validated again is no matter of the journal. -/
theorem setRevalidated (v : Bool) :
    Minds (BootM.setUpdate fun u => { u with targetRevalidated := v }) :=
  fun b _ => .of_ram { b.ram with update := { b.ram.update with targetRevalidated := v } } b.retained
    rfl rfl ⟨rfl, rfl, rfl⟩ trivial

end Minds

/-! ## Saving a record -/

namespace BootJournal.WellFormed

variable {j : BootUpdateJournal}

/-- The states that `BootUpdate_SetState` is called with. -/
abbrev Settable (q : BootUpdateState) : Prop :=
  q ∈ [BootUpdateState.erasing, .downloadReady, .programming, .verifying, .verified]

/-- The next state of a transaction asks for no field that its record does not have. -/
theorem setState {q : BootUpdateState} (h : WellFormed j) (hq : Settable q)
    (ha : BootUpdate.transitionAllowed j.state q.code = true) :
    WellFormed { j with state := q.code } := by
  obtain ⟨p, hp⟩ := h.exists_state
  rw [hp] at ha
  refine h.withState hp j.lastResult h.lastResult ?_ ?_ <;> revert ha hq <;> cases q <;>
    cases p <;> decide

theorem abort {reason : BootUpdateResult} (h : WellFormed j) :
    WellFormed { j with state := BootUpdateState.aborted.code, lastResult := reason.code } := by
  obtain ⟨p, hp⟩ := h.exists_state
  have hresult : reason.code ≤ BootUpdateResult.commissioned.code := by cases reason <;> decide
  exact h.withState (q := .aborted) hp reason.code hresult (fun _ hn => absurd rfl hn)
    fun hn => absurd hn (by decide)

end BootJournal.WellFormed

namespace BootUpdate

open BootJournal.WellFormed (Settable)

variable {b : Board} {next : BootUpdateJournal}

/-- A record with valid fields is saved, or its storage given up for a failing command. -/
theorem traced_save (hb : Mirrored b)
    (hwf : b.ram.update.storageFault = false → WellFormed next) :
    Traced (save next) (fun _ _ => True) b := by
  unfold save
  rw [Traced.bind_getRam]
  refine .ite (fun _ => .pure trivial) fun hc => ?_
  have hfault : b.ram.update.storageFault = false := by
    rw [Bool.or_eq_true, not_or] at hc
    simpa using hc.1
  have hcurrent := hb.current hfault
  refine wp_seq (wp_and BootJournal.issues_commit Ensures.self) ?_ ?_
  · rintro res b' ⟨⟨hev, d, rfl, hends⟩, hrun⟩
    cases res with
    | none =>
      have hfailed := BootJournal.failed_of_commit hb.ready hcurrent (hwf hfault) hrun
      have hkept : ∃ j, Current d.mem j := by
        rcases hends.kept _ hcurrent with h | h
        · exact ⟨_, h⟩
        · exact ⟨_, h⟩
      exact ⟨.single (.failed next (hwf hfault) hfault hev hkept hfailed), trivial⟩
    | some n =>
      obtain ⟨j, hj, rfl, hn⟩ := hends.done n rfl
      obtain rfl := hj.unique hcurrent
      exact ⟨.single (.saved next (hwf hfault) hfault hev hn), trivial⟩
  · rintro b' ⟨hev, -⟩
    refine ⟨b, .refl, hev.mono fun _ _ _ _ hf => ?_⟩
    exact absurd (hfault.symm.trans hf) (by decide)

/-- A function that refuses or saves. -/
theorem traced_save_or_refuse {c : Prop} [Decidable c] (hb : Mirrored b)
    (h : WellFormed b.ram.update.current → ¬ c → WellFormed next) :
    Traced (if c then return false else save next) (fun _ _ => True) b :=
  .ite (fun _ => .pure trivial) fun hc => traced_save hb fun hfault =>
    h (hb.current hfault).wellFormed hc

theorem minds_setState {q : BootUpdateState} (hq : Settable q) : Minds (setState q) := by
  intro b hb
  unfold setState
  rw [Traced.bind_getRam]
  exact traced_save_or_refuse hb fun hwf hc => hwf.setState hq (by simpa using hc)

theorem minds_abort {reason : BootUpdateResult} : Minds (abort reason) := by
  refine (Minds.setRevalidated false).bind fun _ b hb => ?_
  rw [Traced.bind_getRam]
  exact traced_save_or_refuse hb fun hwf _ => hwf.abort

theorem minds_completeActivationHandoff : Minds completeActivationHandoff := by
  intro b hb
  unfold completeActivationHandoff
  rw [Traced.bind_getRam]
  refine traced_save_or_refuse hb fun hwf _ => ?_
  obtain ⟨p, hp⟩ := hwf.exists_state
  exact hwf.withState (q := .idle) hp b.ram.update.current.lastResult hwf.lastResult
    (fun hn => absurd rfl hn) fun hn => absurd hn (by decide)

end BootUpdate

theorem minds_closed : Closed @Minds where
  pure _ _ _ := .pure trivial
  bind := .bind
  get b _ := .of_ram b.ram b.retained rfl rfl ⟨rfl, rfl, rfl⟩ trivial
  setLifecycle g b _ := .of_ram { b.ram with lifecycle := g b.ram.lifecycle } b.retained rfl rfl
    ⟨rfl, rfl, rfl⟩ trivial
  setManager g b _ := .of_ram { b.ram with manager := g b.ram.manager } b.retained rfl rfl
    ⟨rfl, rfl, rfl⟩ trivial
  setRetained r b _ := .of_ram b.ram r rfl rfl ⟨rfl, rfl, rfl⟩ trivial
  metadata h b _ := by
    refine .of_metadata ((h b).mono ?_)
    rintro a b' ⟨d, rfl, -⟩
    exact ⟨rfl, ⟨rfl, rfl, rfl⟩, trivial⟩
  handoff := BootUpdate.minds_completeActivationHandoff

namespace BootUpdate

variable {b : Board}

theorem minds_markPending {recovered : Bool} : Minds (markPending recovered) := by
  intro b hb
  unfold markPending
  rw [Traced.bind_getRam]
  refine .ite (fun _ => .pure trivial) fun hc => ?_
  have hst : b.ram.update.current.state = BootUpdateState.verified.code := by simpa using hc
  refine (traced_save hb fun hfault => ?_).bind fun ok b' hacts _ => ?_
  · exact (hb.current hfault).wellFormed.withState (p := .verified) (q := .pendingActivation) hst _
      (by cases recovered <;> decide) (by decide) (by decide)
  · exact .ite (fun _ => .pure trivial) fun _ =>
      (Minds.setRevalidated true).bind (fun _ _ _ => .pure trivial) b' (Acts.mirrored hacts hb)

theorem minds_markVerified {recovered : Bool} : Minds (markVerified recovered) :=
  minds_closed.getRam fun _ => minds_closed.ite ((minds_setState (by decide)).bind fun _ =>
    minds_closed.ite (minds_closed.pure _) minds_markPending) minds_markPending

theorem minds_beginUpdate {active target : SlotId} {size : Nat} :
    Minds (beginUpdate active target size) := by
  intro b hb
  unfold beginUpdate
  rw [Traced.bind_getRam]
  refine .ite (fun _ => .pure trivial) fun hc => ?_
  refine (traced_save hb fun _ => ?_).bind fun ok b' hacts _ => ?_
  · -- the slots and the size have been checked
    have hallowed : beginAllowed b.ram.update active target size = true := by simpa using hc
    unfold beginAllowed at hallowed
    simp only [Bool.and_eq_true, bne_iff_ne, beq_iff_eq] at hallowed
    obtain ⟨⟨⟨⟨⟨-, hsome⟩, hne⟩, hsize⟩, -⟩, -⟩ := hallowed
    obtain ⟨t, rfl⟩ := Option.isSome_iff_exists.1 hsome
    have ht : BootSlot.getSize (some t) = slotSize := by cases t <;> rfl
    rw [hsize, ht]
    exact Serving.wellFormed_beginRecord _ fun he => hne he.symm
  · exact .ite (fun _ => .pure trivial) fun _ =>
      (Minds.setRevalidated false).bind (fun _ _ _ => .pure trivial) b' (Acts.mirrored hacts hb)

theorem minds_markTransferComplete {header : BootImageHeader} {sequence : Byte} :
    Minds (markTransferComplete header sequence) := by
  intro b hb
  unfold markTransferComplete
  rw [Traced.bind_getRam]
  refine traced_save_or_refuse hb fun hwf hc => hwf.transferComplete ?_ header sequence
  simp only [Bool.or_eq_true, not_or, bne_iff_ne, ne_eq, not_not] at hc
  exact hc.2

theorem minds_setProgress {programmed : Nat} {sequence : Byte} :
    Minds (setProgress programmed sequence) := by
  intro b hb
  unfold setProgress
  rw [Traced.bind_getRam]
  dsimp only
  refine .ite (fun _ => .pure trivial) fun hc => .ite (fun _ => .pure trivial) fun _ => ?_
  simp only [Bool.or_eq_true, not_or, bne_iff_ne, ne_eq, not_not, decide_eq_true_eq] at hc
  refine traced_save hb fun hfault => ?_
  refine (hb.current hfault).wellFormed.progress hc.1.2 ?_ sequence
  refine le_trans ?_ (Nat.le_of_not_lt hc.2)
  -- whole checkpoints of what has been programmed
  unfold durableSize
  have := Nat.div_mul_le_self programmed BootJournal.checkpoint
  dsimp only
  split <;> omega

end BootUpdate
