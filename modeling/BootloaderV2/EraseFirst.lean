import BootloaderV2.Lib.EraseCycle
import BootloaderV2.Server

/-!
# No phrase is programmed twice

Records and headers are written right after the erasure of their sector.  The payload of a slot is
written by many requests: what is left of it has been erased and not programmed since, and nothing
else that the bootloader does changes that.
-/

open BootConfig NorFlash CrashM TwoCopy

/-- The byte at `a` was not programmed since its sector was erased. -/
def Board.Renewed (b : Board) (a : Nat) : Prop := NorFlash.Renewed flashSectorSize a b.dev.log

/-- Each program command so far came after an erase of its own. -/
def Board.Cycled (b : Board) : Prop := NorFlash.Cycled flashSectorSize b.dev.log

/-- The bytes outside a range. -/
def Outside (base size a : Nat) : Prop := a < base ∨ base + size ≤ a

/-- What is renewed among the bytes `S` stays so. -/
structure Spares (S : Nat → Prop) (b b' : Board) : Prop where
  cycled : b.Cycled → b'.Cycled
  renewed : ∀ a, S a → b.Renewed a → b'.Renewed a
  programming : b'.ram.programming = b.ram.programming

namespace Spares

variable {S S' : Nat → Prop} {b b' b'' : Board}

theorem of_same (hdev : b'.dev.log = b.dev.log)
    (hprogramming : b'.ram.programming = b.ram.programming) : Spares S b b' := by
  constructor
  · intro h
    unfold Board.Cycled at h ⊢
    rwa [hdev]
  · intro a _ h
    unfold Board.Renewed at h ⊢
    rwa [hdev]
  · exact hprogramming

theorem refl (b : Board) : Spares S b b := of_same rfl rfl

theorem trans (h : Spares S b b') (h' : Spares S b' b'') : Spares S b b'' where
  cycled hb := h'.cycled (h.cycled hb)
  renewed a ha hb := h'.renewed a ha (h.renewed a ha hb)
  programming := h'.programming.trans h.programming

theorem mono (hS : ∀ a, S' a → S a) (h : Spares S b b') : Spares S' b b' where
  cycled := h.cycled
  renewed a ha := h.renewed a (hS a ha)
  programming := h.programming

end Spares

/-- `m` spares the bytes `S`.  A cut leaves a log in order. -/
def Sparing {α : Type} (S : Nat → Prop) (m : BootM α) (Q : α → Board → Prop) (b : Board) : Prop :=
  wp m (fun a b' => Spares S b b' ∧ Q a b') (fun b' => b.Cycled → b'.Cycled) b

namespace Sparing

variable {α β : Type} {S S' : Nat → Prop} {m n : BootM α} {f : α → BootM β} {Q Q' : α → Board → Prop}
  {P : β → Board → Prop} {b : Board}

theorem pure {a : α} (h : Q a b) : Sparing S (Pure.pure a) Q b := (wp_pure a).2 ⟨.refl b, h⟩

theorem bind (h : Sparing S m Q b) (hf : ∀ a b', Spares S b b' → Q a b' → Sparing S (f a) P b') :
    Sparing S (m >>= f) P b := by
  refine wp_seq h ?_ fun _ hb => hb
  intro a b' ⟨hs, hq⟩
  apply wp_mono (hf a b' hs hq)
  · intro c b'' ⟨hs', hp⟩
    exact ⟨hs.trans hs', hp⟩
  · exact fun b'' hc hb => hc (hs.cycled hb)

theorem mono (h : Sparing S m Q b) (hQ : ∀ a b', Q a b' → Q' a b') : Sparing S m Q' b :=
  wp_mono h (fun a b' hb => ⟨hb.1, hQ a b' hb.2⟩) fun _ hb => hb

theorem weaken (hS : ∀ a, S' a → S a) (h : Sparing S m Q b) : Sparing S' m Q b :=
  wp_mono h (fun _ _ hb => ⟨hb.1.mono hS, hb.2⟩) fun _ hb => hb

theorem ite {c : Prop} [Decidable c] (ht : c → Sparing S m Q b) (hf : ¬ c → Sparing S n Q b) :
    Sparing S (if c then m else n) Q b := by
  split
  · exact ht ‹_›
  · exact hf ‹_›

theorem bind_getRam {g : Ram → BootM β} (h : Sparing S (g b.ram) P b) :
    Sparing S (BootM.getRam >>= g) P b := h

theorem bind_flash {g : (Nat → Byte) → BootM β} (h : Sparing S (g b.mem) P b) :
    Sparing S (BootM.flash >>= g) P b := h

end Sparing

/-! ## The driver -/

namespace FlashDriver

variable {b : Board} {address size : Nat} {data : Nat → Byte}

/-- An erase that succeeds renews its sector. -/
def RenewsRange (address size : Nat) (b : Board) (ok : Bool) (b' : Board) : Prop :=
  b'.ram = b.ram ∧ (ok = true → ∀ a, address ≤ a → a < address + size → b'.Renewed a)

theorem sparing_erase :
    Sparing (fun _ => True) (erase address size) (RenewsRange address size b) b := by
  have hsame : ∀ c : Board, c.ram = b.ram → RenewsRange address size b false c :=
    fun c hc => ⟨hc, fun h => by cases h⟩
  have hissued : ∀ k, Spares (fun _ => True) b
      (b.setDev (b.dev.after (.erase address size) k)) := fun k =>
    ⟨fun h => h.erase, fun a _ h => h.erase, rfl⟩
  unfold erase
  apply Sparing.bind_getRam
  refine .ite (fun _ => .pure (hsame b rfl)) fun hargs => ?_
  simp only [Bool.or_eq_true, not_or, bne_iff_ne, ne_eq, not_not, Bool.not_eq_true',
    Bool.not_eq_false] at hargs
  obtain ⟨⟨-, rfl⟩, haligned⟩ := hargs
  unfold Sparing
  rw [wp_bind, BootM.wp_device]
  apply wp_issue
  · -- the range is compared with what was read back
    rw [wp_ite, if_neg (by decide), wp_bind, BootM.wp_flash]
    refine ⟨hissued _, rfl, fun hread a hlo hhi => ?_⟩
    have herased := of_decide_eq_true hread
    exact renewed_of_erase (Nat.dvd_of_mod_eq_zero haligned) herased hlo hhi
  · exact fun k _ => (hissued _).cycled
  · intro k _
    rw [wp_ite, if_pos (by decide)]
    exact ⟨hissued _, hsame _ rfl⟩

theorem wp_verify {Q : Bool → Board → Prop} {C : Board → Prop} (h : ∀ ok, Q ok b) :
    wp (verify address data size) Q C b := by
  unfold verify
  rw [wp_bind, BootM.wp_getRam, wp_ite]
  split
  · exact h _
  · exact h _

/-- A phrase may be programmed when it is renewed. -/
theorem sparing_programPhrase
    (h : ∀ a, address ≤ a → a < address + flashPhraseSize → b.Renewed a) :
    Sparing (Outside address flashPhraseSize) (programPhrase address data)
      (fun _ b' => b'.ram = b.ram) b := by
  have hissued : ∀ k, Spares (Outside address flashPhraseSize) b
      (b.setDev (b.dev.after (.program address flashPhraseSize data) k)) := by
    intro k
    constructor
    · exact fun hb => hb.cons fun a ha => h a ha.1 ha.2
    · intro a ha hb
      apply hb.cons
      intro hp
      rcases ha with ha | ha
      · exact absurd hp.1 (Nat.not_le.2 ha)
      · exact absurd hp.2 (Nat.not_lt.2 ha)
    · rfl
  unfold programPhrase
  refine .ite (fun _ => .pure rfl) fun _ => ?_
  unfold Sparing
  rw [BootM.wp_device]
  apply wp_issue
  · exact ⟨hissued _, rfl⟩
  · exact fun k _ => (hissued _).cycled
  · exact fun k _ => ⟨hissued _, rfl⟩

theorem sparing_programLoop {offset n : Nat} (h : ∀ a, address + offset ≤ a →
    a < address + offset + flashPhraseSize * n → b.Renewed a) :
    Sparing (Outside (address + offset) (flashPhraseSize * n)) (programLoop address data offset n)
      (fun _ b' => b'.ram = b.ram) b := by
  induction n generalizing b offset with
  | zero => exact .pure rfl
  | succ n ih =>
    rw [Nat.mul_succ] at h ⊢
    unfold programLoop
    have hphrase : Sparing (Outside (address + offset) (flashPhraseSize * n + flashPhraseSize))
        (programPhrase (address + offset) fun i => data (offset + i))
        (fun _ b' => b'.ram = b.ram ∧ ∀ a, address + (offset + flashPhraseSize) ≤ a →
          a < address + (offset + flashPhraseSize) + flashPhraseSize * n → b'.Renewed a) b := by
      have hstep := @sparing_programPhrase b (address + offset) (fun i => data (offset + i))
        fun a hlo hhi => h a hlo (by omega)
      apply wp_mono hstep
      · rintro ok b' ⟨hs, hram⟩
        refine ⟨hs.mono fun a ha => ?_, hram, fun a hlo hhi => ?_⟩
        · unfold Outside at ha ⊢
          omega
        · exact hs.renewed a (.inr (by omega)) (h a (by omega) (by omega))
      · exact fun _ hb => hb
    apply hphrase.bind
    rintro ok b₁ _ ⟨hram₁, h₁⟩
    refine .ite (fun _ => .pure hram₁) fun _ => ?_
    have hread : Sparing (Outside (address + offset) (flashPhraseSize * n + flashPhraseSize))
        (verify (address + offset) (fun i => data (offset + i)) flashPhraseSize)
        (fun _ b' => b' = b₁) b₁ := wp_verify fun _ => ⟨.refl b₁, rfl⟩
    apply hread.bind
    intro ok' b₂ _ hb₂
    rw [hb₂]
    refine .ite (fun _ => .pure hram₁) fun _ => ?_
    apply ((ih h₁).weaken ?_).mono
    · exact fun _ b' hb' => hb'.trans hram₁
    · intro a ha
      unfold Outside at ha ⊢
      omega

/-- A range may be programmed when it is renewed. -/
theorem sparing_program (h : ∀ a, address ≤ a → a < address + size → b.Renewed a) :
    Sparing (Outside address size) (program address data size) (fun _ b' => b'.ram = b.ram) b := by
  have hfit : flashPhraseSize * (size / flashPhraseSize) ≤ size := Nat.mul_div_le _ _
  unfold program
  apply Sparing.bind_getRam
  refine .ite (fun _ => .pure rfl) fun _ => ?_
  have hloop := @sparing_programLoop b address data 0 (size / flashPhraseSize)
    fun a hlo hhi => h a (by omega) (by omega)
  apply hloop.weaken
  intro a ha
  unfold Outside at ha ⊢
  omega

/-- An erased phrase is not programmed. -/
theorem sparing_programBlank {S : Nat → Prop} (h : TwoCopy.blank data flashPhraseSize = true) :
    Sparing S (program address data flashPhraseSize) (fun _ b' => b'.ram = b.ram) b := by
  have hphrase : programPhrase (address + 0) (fun i => data (0 + i)) = pure true := by
    unfold programPhrase
    simp only [Nat.zero_add, h, if_true]
  unfold program
  apply Sparing.bind_getRam
  refine .ite (fun _ => .pure rfl) fun _ => ?_
  show Sparing S (programLoop address data 0 1) _ b
  unfold programLoop
  rw [hphrase]
  apply (show Sparing S (pure true : BootM Bool) (fun _ b' => b' = b) b from .pure rfl).bind
  intro ok b₁ _ hb₁
  rw [hb₁]
  refine .ite (fun _ => .pure rfl) fun _ => ?_
  have hread : Sparing S (verify (address + 0) (fun i => data (0 + i)) flashPhraseSize)
      (fun _ b' => b' = b) b := wp_verify fun _ => ⟨.refl b, rfl⟩
  apply hread.bind
  intro ok' b₂ _ hb₂
  rw [hb₂]
  exact .ite (fun _ => .pure rfl) fun _ => .pure rfl

/-- The window has no part in it. -/
theorem sparing_withWindow {S : Nat → Prop} {start stop : Nat} {m : BootM Bool}
    {Q : Bool → Board → Prop}
    (h : ∀ c : Board, c.dev = b.dev → c.ram.programming = b.ram.programming → Sparing S m
      (fun ok b' => ∀ b'', b''.dev = b'.dev → Q ok b'') c) :
    Sparing S (withWindow start stop m) Q b := by
  unfold withWindow setWindow
  apply Sparing.bind_getRam
  have hset : ∀ (c : Board) (g : BootFlash.State → BootFlash.State),
      Sparing S (BootM.setFlash g) (fun _ b' => b'.dev = c.dev ∧
        b'.ram.programming = c.ram.programming) c := fun c g => ⟨.of_same rfl rfl, rfl, rfl⟩
  apply (hset b _).bind
  intro _ b₁ _ ⟨hdev, hprogramming⟩
  apply (h b₁ hdev hprogramming).bind
  intro ok b₂ _ hq
  apply (hset b₂ _).bind
  intro _ b₃ _ ⟨hdev', _⟩
  exact .pure (hq b₃ hdev')

theorem sparing_windowErase {start stop : Nat} :
    Sparing (fun _ => True) (withWindow start stop (erase address size))
      (fun ok b' => ok = true → ∀ a, address ≤ a → a < address + size → b'.Renewed a) b := by
  apply sparing_withWindow
  intro c _ _
  apply sparing_erase.mono
  intro ok b' ⟨_, hrenewed⟩ b'' hdev hok a hlo hhi
  unfold Board.Renewed
  rw [hdev]
  exact hrenewed hok a hlo hhi

theorem sparing_windowProgram {start stop : Nat}
    (h : ∀ a, address ≤ a → a < address + size → b.Renewed a) :
    Sparing (Outside address size) (withWindow start stop (program address data size))
      (fun _ _ => True) b := by
  apply sparing_withWindow
  intro c hdev _
  have hprogram : ∀ a, address ≤ a → a < address + size → c.Renewed a := by
    intro a hlo hhi
    unfold Board.Renewed
    rw [hdev]
    exact h a hlo hhi
  exact (sparing_program hprogram).mono fun _ _ _ _ _ => trivial

end FlashDriver

namespace BootFlash

variable {b : Board} {address size : Nat} {data : Nat → Byte}

theorem sparing_erase : Sparing (fun _ => True) (erase address size)
    (FlashDriver.RenewsRange address size b) b := by
  unfold erase
  apply Sparing.bind_getRam
  refine .ite (fun _ => .pure ⟨rfl, fun h => by cases h⟩) fun _ => ?_
  exact FlashDriver.sparing_erase

theorem sparing_program (h : address % flashPhraseSize = 0 →
      ∀ a, address ≤ a → a < address + size → b.Renewed a) :
    Sparing (Outside address size) (program address data size) (fun _ b' => b'.ram = b.ram) b := by
  unfold program
  apply Sparing.bind_getRam
  refine .ite (fun _ => .pure rfl) fun hargs => ?_
  have haligned : address % flashPhraseSize = 0 := by
    simp only [Bool.or_eq_true, not_or, bne_iff_ne, ne_eq, not_not] at hargs
    exact hargs.1.2
  exact FlashDriver.sparing_program (h haligned)

/-- An erased phrase is not programmed. -/
theorem sparing_programBlank {S : Nat → Prop} (h : TwoCopy.blank data flashPhraseSize = true) :
    Sparing S (program address data flashPhraseSize) (fun _ b' => b'.ram = b.ram) b := by
  unfold program
  apply Sparing.bind_getRam
  refine .ite (fun _ => .pure rfl) fun _ => ?_
  exact FlashDriver.sparing_programBlank h

theorem sparing_configureSlots {S : Nat → Prop} {active target : SlotId} :
    Sparing S (configureSlots active target) (fun _ _ => True) b := by
  have hset : ∀ (c : Board) (g : State → State),
      Sparing S (BootM.setFlash g) (fun _ _ => True) c := fun c g => ⟨.of_same rfl rfl, trivial⟩
  unfold configureSlots FlashDriver.init FlashDriver.setWindow
  apply (hset b _).bind
  intro _ b₁ _ _
  apply Sparing.bind_getRam
  refine .ite (fun _ => .pure trivial) fun _ => ?_
  have hinit : Sparing S (FlashDriver.init active target) (fun _ _ => True) b₁ := by
    unfold FlashDriver.init FlashDriver.setWindow
    apply (hset b₁ _).bind
    intro _ b₂ _ _
    cases target with
    | none => exact .pure trivial
    | some t =>
      refine .ite (fun _ => .pure trivial) fun _ => ?_
      apply (hset b₂ _).bind
      exact fun _ _ _ _ => .pure trivial
  apply hinit.bind
  intro ok b₂ _ _
  refine .ite (fun _ => .pure trivial) fun _ => ?_
  apply (hset b₂ _).bind
  exact fun _ _ _ _ => .pure trivial

end BootFlash

/-! ## Two-copy records -/

/-- An erase of a copy renews its sector, and a renewed phrase of it may be programmed. -/
structure TwoCopy.Port.Cycles (P : Port Board Note) : Prop where
  erase : ∀ k b, Sparing (fun _ => True) (P.erase k)
    (fun ok b' => ok = true → ∀ a, P.base k ≤ a → a < P.base k + P.sector → b'.Renewed a) b
  program : ∀ k offset data b, (∀ a, P.base k + offset ≤ a →
      a < P.base k + offset + P.phrase → b.Renewed a) →
    Sparing (Outside (P.base k + offset) P.phrase) (P.program k offset data) (fun _ _ => True) b

namespace TwoCopy.Port.Cycles

variable {P : Port Board Note} {R : Type} {F : Format R} {k : Fin 2} {next : R} {b : Board}

theorem sparing_programPhrases (h : P.Cycles) {data : Nat → Byte} {offset n : Nat}
    (hb : ∀ a, P.base k + offset ≤ a → a < P.base k + offset + P.phrase * n → b.Renewed a) :
    Sparing (Outside (P.base k + offset) (P.phrase * n)) (programPhrases P k data offset n)
      (fun _ _ => True) b := by
  induction n generalizing b offset with
  | zero => exact .pure trivial
  | succ n ih =>
    rw [Nat.mul_succ] at hb ⊢
    unfold programPhrases
    have hphrase := h.program k offset (fun i => data (offset + i)) b
      fun a hlo hhi => hb a hlo (by omega)
    have hnarrow : ∀ a, Outside (P.base k + offset) (P.phrase * n + P.phrase) a →
        Outside (P.base k + offset) P.phrase a := by
      intro a ha
      unfold Outside at ha ⊢
      omega
    have hfirst : Sparing (Outside (P.base k + offset) (P.phrase * n + P.phrase))
        (P.program k offset fun i => data (offset + i))
        (fun _ b' => ∀ a, P.base k + (offset + P.phrase) ≤ a →
          a < P.base k + (offset + P.phrase) + P.phrase * n → b'.Renewed a) b := by
      apply wp_mono hphrase
      · rintro ok b' ⟨hs, _⟩
        refine ⟨hs.mono hnarrow, fun a hlo hhi => ?_⟩
        exact hs.renewed a (.inr (by omega)) (hb a (by omega) (by omega))
      · exact fun _ hc => hc
    apply hfirst.bind
    intro ok b₁ _ hb₁
    refine .ite (fun _ => ?_) fun _ => .pure trivial
    apply (ih hb₁).weaken
    intro a ha
    unfold Outside at ha ⊢
    omega

/-- The whole write of a record stays in the sector of its copy. -/
theorem sparing_writeCopy (h : P.Cycles) (hsize : F.size ≤ P.sector) :
    Sparing (Outside (P.base k) P.sector) (writeCopy F P k next) (fun _ _ => True) b := by
  have hfit : P.phrase * (F.size / P.phrase) ≤ F.size := Nat.mul_div_le _ _
  unfold writeCopy
  refine .ite (fun _ => .pure trivial) fun _ => ?_
  apply ((h.erase k b).weaken fun _ _ => trivial).bind
  intro ok b₁ _ hrenewed
  refine .ite (fun _ => .pure trivial) fun hok => ?_
  have hok : ok = true := by simpa using hok
  have hphrases : Sparing (Outside (P.base k + 0) (P.phrase * (F.size / P.phrase)))
      (programPhrases P k (F.encode next) 0 (F.size / P.phrase)) (fun _ _ => True) b₁ :=
    h.sparing_programPhrases fun a hlo hhi => hrenewed hok a (by omega) (by omega)
  apply (hphrases.weaken ?_).bind
  · intro ok' b₂ _ _
    refine .ite (fun _ => .pure trivial) fun _ => ?_
    apply (show Sparing (Outside (P.base k) P.sector) CrashM.get (fun _ _ => True) b₂ from
      ⟨.refl b₂, trivial⟩).bind
    intro c b₃ _ _
    exact .ite (fun _ => .pure trivial) fun _ => .pure trivial
  · intro a ha
    unfold Outside at ha ⊢
    omega

end TwoCopy.Port.Cycles

theorem BootJournalStorage.cycles : BootJournalStorage.port.Cycles where
  erase k b := by
    show Sparing _ (BootJournalStorage.erase k) _ b
    unfold BootJournalStorage.erase
    apply Sparing.bind_getRam
    exact .ite (fun _ => .pure fun h => by cases h) fun _ => FlashDriver.sparing_windowErase
  program k offset data b h := by
    show Sparing _ (BootJournalStorage.program k offset data flashPhraseSize) _ b
    unfold BootJournalStorage.program FlashDriver.journalProgram
    apply Sparing.bind_getRam
    refine .ite (fun _ => .pure trivial) fun _ => .ite (fun _ => .pure trivial) fun _ => ?_
    exact FlashDriver.sparing_windowProgram h

theorem BootMetadataStorage.cycles (s : Slot) : (BootMetadataStorage.port s).Cycles where
  erase k b := by
    show Sparing _ (BootMetadataStorage.erase s k) _ b
    unfold BootMetadataStorage.erase
    apply Sparing.bind_getRam
    exact .ite (fun _ => .pure fun h => by cases h) fun _ => FlashDriver.sparing_windowErase
  program k offset data b h := by
    show Sparing _ (BootMetadataStorage.program s k offset data flashPhraseSize) _ b
    unfold BootMetadataStorage.program FlashDriver.metadataProgram
    apply Sparing.bind_getRam
    refine .ite (fun _ => .pure trivial) fun _ => .ite (fun _ => .pure trivial) fun _ => ?_
    exact FlashDriver.sparing_windowProgram h

/-! ## What stays out of the slots -/

/-- Below the journal lie the slots. -/
def BelowJournal (a : Nat) : Prop := a < journalCopy0Address

namespace BootJournal

variable {record : BootUpdateJournal} {b : Board}

theorem sparing_commitRecord {first : Bool} :
    Sparing BelowJournal (commitRecord record first) (fun _ _ => True) b := by
  have hwrite : ∀ (k : Fin 2) (next : BootUpdateJournal), Sparing BelowJournal
      (writeCopy recordFormat BootJournalStorage.port k next) (fun _ _ => True) b := by
    intro k next
    apply (BootJournalStorage.cycles.sparing_writeCopy (by decide)).weaken
    exact fun a ha => .inl (Nat.lt_of_lt_of_le ha (View.journalAddress_range k).1)
  unfold commitRecord
  apply Sparing.bind_flash
  split
  · exact .ite (fun _ => .pure trivial) fun _ => hwrite _ _
  · exact .ite (fun _ => .pure trivial) fun _ => hwrite _ _

end BootJournal

namespace BootMetadata

variable {s : Slot} {record : BootSlotMetadata} {b : Board}

theorem sparing_writeRecord {expected : BootMetadataStatus} {programming : Bool} :
    Sparing BelowJournal (writeRecord s record expected programming) (fun _ _ => True) b := by
  have hwrite : ∀ (k : Fin 2) (next : BootSlotMetadata), Sparing BelowJournal
      (writeCopy (recordFormat s) (BootMetadataStorage.port s) k next) (fun _ _ => True) b := by
    intro k next
    have hsize : (recordFormat s).size ≤ (BootMetadataStorage.port s).sector := by
      show metadataRecordSize ≤ flashSectorSize
      decide
    apply ((BootMetadataStorage.cycles s).sparing_writeCopy hsize).weaken
    intro a ha
    have hbelow : a < FlashDriver.metadataAddress s k := Nat.lt_of_lt_of_le ha
      (Nat.le_trans (by decide) (View.metadataAddress_range s k).1)
    exact .inl hbelow
  unfold writeRecord
  apply Sparing.bind_flash
  refine .ite (fun _ => .pure trivial) fun _ => ?_
  split
  · exact .ite (fun _ => .pure trivial) fun _ => hwrite _ _
  · exact .ite (fun _ => .pure trivial) fun _ => hwrite _ _

end BootMetadata

/-! ## What leaves the payload alone -/

/-- The payload of a slot ends where the sector of its header starts. -/
def InPayload (a : Nat) : Prop := ∃ t : Slot, t.base ≤ a ∧ a < t.header

namespace InPayload

variable {a : Nat}

theorem belowJournal (h : InPayload a) : BelowJournal a := by
  obtain ⟨t, -, hhi⟩ := h
  have hend : t.header < journalCopy0Address := by cases t <;> decide
  exact Nat.lt_trans hhi hend

theorem outside_header (h : InPayload a) (t : Slot) : Outside t.header flashSectorSize a := by
  have ha : slotABaseAddress ≤ slotBHeaderAddress := by decide
  have hb : slotAHeaderAddress + flashSectorSize ≤ slotBBaseAddress := by decide
  have haligned : slotBBaseAddress ≤ slotBHeaderAddress := by decide
  obtain ⟨s, hlo, hhi⟩ := h
  unfold Outside
  cases t with
  | a =>
    cases s with
    | a => exact .inl hhi
    | b => exact .inr (Nat.le_trans hb hlo)
  | b =>
    cases s with
    | a =>
      have hlt : a < slotAHeaderAddress := hhi
      exact .inl (show a < slotBHeaderAddress by omega)
    | b => exact .inl hhi

end InPayload

/-- `m` programs no payload. -/
def Tending {α : Type} (m : BootM α) : Prop := ∀ b, Sparing InPayload m (fun _ _ => True) b

namespace Tending

variable {α β : Type} {m : BootM α} {f : α → BootM β}

theorem pure (a : α) : Tending (Pure.pure a : BootM α) := fun _ => .pure trivial

theorem bind (hm : Tending m) (hf : ∀ a, Tending (f a)) : Tending (m >>= f) :=
  fun b => (hm b).bind fun a b' _ _ => hf a b'

theorem sequenced : Sequenced @Tending where
  pure := pure
  bind := bind
  get b := ⟨.refl b, trivial⟩

/-- Variables that are not the server's. -/
theorem modify {g : Board → Board} (hdev : ∀ b, (g b).dev = b.dev)
    (hprogramming : ∀ b, (g b).ram.programming = b.ram.programming) :
    Tending (CrashM.modify g) :=
  fun b => ⟨.of_same (congrArg Device.log (hdev b)) (hprogramming b), trivial⟩

theorem recorded : Recorded @Tending where
  toSequenced := sequenced
  setUpdate g := modify (by exact fun _ => rfl) (by exact fun _ => rfl)
  setLifecycle g := modify (by exact fun _ => rfl) (by exact fun _ => rfl)
  setManager g := modify (by exact fun _ => rfl) (by exact fun _ => rfl)
  commitRecord _ _ _ := BootJournal.sparing_commitRecord.weaken fun _ ha => ha.belowJournal
  writeRecord _ _ _ _ _ := BootMetadata.sparing_writeRecord.weaken fun _ ha => ha.belowJournal

end Tending

theorem Tending.booting : Booting @Tending where
  toManaged := BootLifecycle.stored_managed Tending.recorded.stored
  setRetained r := Tending.modify (by exact fun _ => rfl) (by exact fun _ => rfl)

/-! ## A boot -/

namespace BootFlash

theorem tending_configureSlots {active target : SlotId} : Tending (configureSlots active target) :=
  fun _ => sparing_configureSlots

theorem tending_init : Tending init := by
  have hset : ∀ g, Tending (BootM.setFlash g) := fun g =>
    .modify (by exact fun _ => rfl) (by exact fun _ => rfl)
  have hdriver : Tending (FlashDriver.init none (some .a)) :=
    (hset _).bind fun _ => Tending.sequenced.ite (.pure _) <| (hset _).bind fun _ => .pure _
  exact (hset _).bind fun _ => (hset _).bind fun _ => hdriver.bind fun _ => hset _

variable {b : Board} {t : Slot} {data : Nat → Byte} {size : Nat}

theorem sparing_eraseHeader : Sparing InPayload (erase t.header flashSectorSize)
    (FlashDriver.RenewsRange t.header flashSectorSize b) b :=
  sparing_erase.weaken fun _ _ => trivial

/-- Right after its sector has been erased, a header may be programmed. -/
theorem sparing_programHeader (hsize : size ≤ flashSectorSize)
    (h : ∀ a, t.header ≤ a → a < t.header + flashSectorSize → b.Renewed a) :
    Sparing InPayload (program t.header data size) (fun _ b' => b'.ram = b.ram) b := by
  have hprogram := @sparing_program b t.header size data fun _ a hlo hhi => h a hlo (by omega)
  apply hprogram.weaken
  intro a ha
  have hout := ha.outside_header t
  unfold Outside at hout ⊢
  omega

end BootFlash

theorem BootImageInstall.tending_validateAndPublish {active target : SlotId}
    {header : BootImageHeader} : Tending (validateAndPublish active target header) := by
  intro b
  unfold validateAndPublish
  apply Sparing.bind_flash
  refine .ite (fun _ => .pure trivial) fun haccepted => .ite (fun _ => .pure trivial) fun _ => ?_
  cases target with
  | none => exact absurd (by simp [accepted]) haccepted
  | some t =>
    apply (BootFlash.tending_configureSlots b).bind
    intro ok b₁ _ _
    refine .ite (fun _ => .pure trivial) fun _ => ?_
    apply BootFlash.sparing_eraseHeader.bind
    rintro ok b₂ _ ⟨_, hrenewed⟩
    refine .ite (fun _ => .pure trivial) fun hok => ?_
    have hok : ok = true := by simpa using hok
    apply (BootFlash.sparing_programHeader (by decide) (hrenewed hok)).bind
    intro ok' b₃ _ _
    refine .ite (fun _ => .pure trivial) fun _ => ?_
    exact Sparing.bind_flash (.pure trivial)

/-- A boot programs headers and records only, each right after its sector has been erased. -/
theorem BootManager.tending_run : Tending run := by
  have hinit : Tending init := Tending.sequenced.read fun _ =>
    BootFlash.tending_init.bind fun _ => (BootUpdate.recorded_loadRecoveryState Tending.recorded
        BootImageInstall.tending_validateAndPublish).bind fun _ =>
      (Tending.booting.init _).bind fun _ => Tending.booting.setManager _
  exact hinit.bind fun _ => booting_afterInit Tending.booting
