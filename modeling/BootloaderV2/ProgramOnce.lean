import BootloaderV2.EraseFirst
import BootloaderV2.Services

/-!
# The server programs what it has erased

While a download is possible, what the server has not programmed yet of the payload has been erased
and not programmed since.  Every step of the server keeps this, and a reset loses only the variables
that would let it go on.
-/

open BootConfig NorFlash CrashM

/-- A download may go on: the payload after the programmed bytes is renewed. -/
structure Poised (b : Board) : Prop where
  cycled : b.Cycled
  downloading : b.ram.programming.downloadActive = true → b.ram.programming.eraseComplete = true
  rest : b.ram.programming.eraseComplete = true → ∃ t : Slot,
    b.ram.programming.targetSlot = some t ∧ b.ram.programming.targetAddress = t.base ∧
      ∀ a, t.base + b.ram.programming.programmedSize ≤ a → a < t.header → b.Renewed a

/-- The context names the same target with as many bytes programmed. -/
structure SameTarget (c c' : BootProgramming.Context) : Prop where
  eraseComplete : c'.eraseComplete = c.eraseComplete
  targetSlot : c'.targetSlot = c.targetSlot
  targetAddress : c'.targetAddress = c.targetAddress
  programmedSize : c.programmedSize ≤ c'.programmedSize

theorem SameTarget.refl (c : BootProgramming.Context) : SameTarget c c := ⟨rfl, rfl, rfl, le_refl _⟩

namespace Poised

variable {b b' : Board}

/-- With no download to go on with, nothing is needed. -/
theorem of_clear (hcycled : b.Cycled) (herase : b.ram.programming.eraseComplete = false)
    (hdownload : b.ram.programming.downloadActive = false) : Poised b where
  cycled := hcycled
  downloading h := by
    rw [hdownload] at h
    cases h
  rest h := by
    rw [herase] at h
    cases h

theorem spares (h : Poised b) (hs : Spares InPayload b b') : Poised b' where
  cycled := hs.cycled h.cycled
  downloading := by
    rw [hs.programming]
    exact h.downloading
  rest := by
    rw [hs.programming]
    intro herase
    obtain ⟨t, ht, haddress, hrenewed⟩ := h.rest herase
    refine ⟨t, ht, haddress, fun a hlo hhi => ?_⟩
    exact hs.renewed a ⟨t, Nat.le_trans (Nat.le_add_right _ _) hlo, hhi⟩ (hrenewed a hlo hhi)

/-- The variables of the context that do not matter may change, and more bytes may count. -/
theorem context (h : Poised b) {c : BootProgramming.Context}
    (hsame : SameTarget b.ram.programming c) (hdownload : c.downloadActive = true →
      c.eraseComplete = true) :
    Poised { b with ram := { b.ram with programming := c } } where
  cycled := h.cycled
  downloading := hdownload
  rest := by
    intro herase
    have herase : b.ram.programming.eraseComplete = true := hsame.eraseComplete.symm.trans herase
    obtain ⟨t, ht, haddress, hrenewed⟩ := h.rest herase
    refine ⟨t, hsame.targetSlot.trans ht, hsame.targetAddress.trans haddress, fun a hlo hhi => ?_⟩
    have hlo : t.base + c.programmedSize ≤ a := hlo
    have hsize := hsame.programmedSize
    exact hrenewed a (by omega) hhi

end Poised

/-- `m` keeps the server poised.  A cut leaves a log in order. -/
def Poises {α : Type} (m : BootM α) : Prop := ∀ b, Poised b → wp m (fun _ => Poised) Board.Cycled b

/-- A step that programs no payload, and what follows it. -/
theorem Sparing.seq {α β : Type} {S : Nat → Prop} {m : BootM α} {f : α → BootM β}
    {Q : α → Board → Prop} {P : β → Board → Prop} {b : Board} (h : Sparing S m Q b)
    (hb : b.Cycled) (hf : ∀ a b', Spares S b b' → Q a b' → wp (f a) P Board.Cycled b') :
    wp (m >>= f) P Board.Cycled b := by
  apply wp_seq h
  · intro a b' hq
    exact hf a b' hq.1 hq.2
  · exact fun b' hc => hc hb

namespace Poises

variable {α β : Type} {m : BootM α} {f : α → BootM β}

theorem of_tending (h : Tending m) : Poises m := fun b hb =>
  wp_mono (h b) (fun _ _ hs => hb.spares hs.1) fun _ hc => hc hb.cycled

theorem bind (hm : Poises m) (hf : ∀ a, Poises (f a)) : Poises (m >>= f) :=
  fun b hb => wp_seq (hm b hb) (fun a b' hb' => hf a b' hb') fun _ hc => hc

theorem sequenced : Sequenced @Poises where
  pure _ _ hb := hb
  bind := bind
  get _ hb := hb

theorem managed : Managed @Poises where
  toSequenced := sequenced
  setManager g := of_tending (Tending.booting.setManager g)
  reload := of_tending Tending.booting.reload
  init reason := of_tending (Tending.booting.init reason)
  select a b := of_tending (Tending.booting.select a b)
  confirm slot := of_tending (Tending.booting.confirm slot)
  prepareBoot slot := of_tending (Tending.booting.prepareBoot slot)

/-- What the server reads of its target stays. -/
theorem setProgramming {g : BootProgramming.Context → BootProgramming.Context}
    (hsame : ∀ c, SameTarget c (g c)) (hdownload : ∀ c, (g c).downloadActive = c.downloadActive) :
    Poises (BootM.setProgramming g) := by
  intro b hb
  apply hb.context (hsame _)
  rw [hdownload, (hsame _).eraseComplete]
  exact hb.downloading

end Poises

theorem BootIsoTp.tending_transmit : Tending transmit := fun _ => ⟨.of_same rfl rfl, trivial⟩

namespace BootProgramming

variable {b : Board} {t : Slot}

/-- After `BootProgramming_Abort` there is no download. -/
theorem wp_abort (hb : b.Cycled) : wp abort (fun _ => Poised) Board.Cycled b :=
  .of_clear hb rfl rfl

theorem wp_giveUp {reason : BootUpdateResult} {r : Byte} (hb : b.Cycled) :
    wp (do let _ ← BootUpdate.abort reason; abort; return r) (fun _ => Poised) Board.Cycled b := by
  apply (BootUpdate.recorded_abort Tending.recorded b).seq hb
  intro ok b₁ hs _
  exact wp_seq (wp_abort (hs.cycled hb)) (fun _ _ h => h) fun _ hc => hc

theorem tending_refuse {reason : BootUpdateResult} {r : Byte} :
    Tending (do let _ ← BootUpdate.abort reason; return r) :=
  (BootUpdate.recorded_abort Tending.recorded).bind fun _ => .pure r

/-! ## Erase -/

/-- The loop renews the payload in the sectors it visits. -/
theorem sparing_eraseLoop {current n : Nat} :
    Sparing InPayload (eraseLoop t.header current n) (fun r b' => r = 0 → ∀ a, InPayload a →
      current ≤ a → a < current + flashSectorSize * n → b'.Renewed a) b := by
  induction n generalizing b current with
  | zero => exact .pure fun _ a _ hlo hhi => absurd hlo (Nat.not_le.2 hhi)
  | succ n ih =>
    rw [Nat.mul_succ]
    unfold eraseLoop
    refine .ite (fun hskip => ?_) fun _ => ?_
    · -- the sector left out is the header's
      apply (@ih b (current + flashSectorSize)).mono
      intro r b' h hr a ha hlo hhi
      have hout := ha.outside_header t
      unfold Outside at hout
      exact h hr a ha (by omega) (by omega)
    · apply (BootIsoTp.tending_transmit b).bind
      intro ok b₁ _ _
      refine .ite (fun _ => .pure fun h => absurd h (by decide)) fun _ => ?_
      apply (BootFlash.sparing_erase.weaken fun _ _ => trivial).bind
      rintro ok b₂ _ ⟨_, hrenewed⟩
      refine .ite (fun _ => ?_) fun hok => ?_
      · apply (BootUpdate.recorded_abort Tending.recorded b₂).bind
        exact fun _ _ _ _ => .pure fun h => absurd h (by decide)
      · have hok : ok = true := by simpa using hok
        have hloop := @ih b₂ (current + flashSectorSize)
        apply wp_mono hloop
        · rintro r b' ⟨hs, h⟩
          refine ⟨hs, fun hr a ha hlo hhi => ?_⟩
          by_cases hsector : current + flashSectorSize ≤ a
          · exact h hr a ha hsector (by omega)
          · exact hs.renewed a ha (hrenewed hok a hlo (by omega))
        · exact fun _ hc => hc

/-- `BootProgramming_Erase` from `BootUpdate_Begin` on. -/
theorem wp_eraseTarget {active : SlotId} (hb : b.Cycled)
    (herase : b.ram.programming.eraseComplete = false)
    (hdownload : b.ram.programming.downloadActive = false)
    (ht : b.ram.programming.targetSlot = some t) :
    wp (eraseTarget active (some t) t.base slotSize) (fun _ => Poised) Board.Cycled b := by
  -- until the last step the context is cleared
  have hclear : ∀ {b'}, Spares InPayload b b' → Poised b' := by
    intro b' hs
    apply (Poised.of_clear hb herase hdownload).spares hs
  have hrefuse : ∀ {b'} {r : Byte}, Spares InPayload b b' →
      wp (do let _ ← BootUpdate.abort .eraseFailed; return r) (fun _ => Poised) Board.Cycled b' :=
    fun hs => Poises.of_tending tending_refuse _ (hclear hs)
  unfold eraseTarget
  apply (BootUpdate.recorded_beginUpdate Tending.recorded b).seq hb
  intro ok b₁ h₁ _
  rw [wp_ite]
  split
  · exact hclear h₁
  apply (BootUpdate.recorded_setState Tending.recorded b₁).seq (hclear h₁).cycled
  intro ok b₂ h₂ _
  have h₂ := h₁.trans h₂
  rw [wp_ite]
  split
  · exact hclear h₂
  apply BootFlash.sparing_eraseHeader.seq (hclear h₂).cycled
  intro ok b₃ h₃ ⟨_, hrenewed⟩
  have h₃ := h₂.trans h₃
  rw [wp_ite]
  split
  · exact hrefuse h₃
  have hok : ok = true := by
    rename_i hok
    simpa using hok
  apply (BootFlash.sparing_programHeader (by decide) (hrenewed hok)).seq (hclear h₃).cycled
  intro ok b₄ h₄ _
  have h₄ := h₃.trans h₄
  rw [wp_ite]
  split
  · exact hrefuse h₄
  apply sparing_eraseLoop.seq (hclear h₄).cycled
  intro r b₅ h₅ hloop
  have h₅ := h₄.trans h₅
  rw [wp_ite]
  split
  · exact hclear h₅
  have hr : r = 0 := by
    rename_i hr
    simpa using hr
  apply (BootUpdate.recorded_setState Tending.recorded b₅).seq (hclear h₅).cycled
  intro ok b₆ h₆ _
  rw [wp_ite]
  split
  · exact hclear (h₅.trans h₆)
  -- the payload has been visited as a whole
  have hsize : t.header ≤ t.base + flashSectorSize * (slotSize / flashSectorSize) := by
    cases t <;> decide
  have hprogramming := (h₅.trans h₆).programming
  rw [wp_bind]
  show Poised _
  constructor
  · exact (hclear (h₅.trans h₆)).cycled
  · exact fun _ => rfl
  · intro _
    refine ⟨t, ?_, rfl, fun a hlo hhi => ?_⟩
    · show b₆.ram.programming.targetSlot = some t
      rw [hprogramming, ht]
    · have hbase : t.base ≤ a := Nat.le_trans (Nat.le_add_right _ _) hlo
      exact h₆.renewed a ⟨t, hbase, hhi⟩ (hloop hr a ⟨t, hbase, hhi⟩ hbase (by omega))

/-- A target that is checked has a slot. -/
theorem poises_erase {address size : Nat} : Poises (erase address size) := by
  intro b hb
  unfold erase
  rw [wp_bind, BootM.wp_getRam]
  dsimp only
  rw [wp_ite]
  split
  · exact hb
  rw [wp_ite]
  split
  · exact hb
  rw [wp_ite]
  split
  · exact hb
  rename_i hexact
  have hexact : exactTarget b.ram.programming address size = true := by simpa using hexact
  obtain ⟨t, ht, -, haddress, hsize⟩ := exists_target_of_exact hexact
  rw [wp_ite]
  split
  · exact hb
  rw [ht, haddress, hsize]
  apply wp_seq (show wp abort (fun _ b' => b' = { b with ram := { b.ram with
    programming := aborted b.ram.programming } }) (fun _ => False) b from rfl)
  · intro _ b₁ hb₁
    have hb₁' : Poised b₁ := by
      rw [hb₁]
      exact .of_clear hb.cycled rfl rfl
    have herase₁ : b₁.ram.programming.eraseComplete = false := by rw [hb₁]; rfl
    have hdownload₁ : b₁.ram.programming.downloadActive = false := by rw [hb₁]; rfl
    have ht₁ : b₁.ram.programming.targetSlot = some t := by rw [hb₁]; exact ht
    apply (BootFlash.tending_configureSlots b₁).seq hb₁'.cycled
    intro ok b₂ h₂ _
    rw [wp_ite]
    split
    · exact hb₁'.spares h₂
    apply (BootIsoTp.tending_transmit b₂).seq (hb₁'.spares h₂).cycled
    intro ok b₃ h₃ _
    have h₃ := h₂.trans h₃
    rw [wp_ite]
    split
    · exact hb₁'.spares h₃
    apply wp_eraseTarget (hb₁'.spares h₃).cycled
    · rw [h₃.programming, herase₁]
    · rw [h₃.programming, hdownload₁]
    · rw [h₃.programming, ht₁]
  · exact fun _ h => h.elim

/-! ## Download and transfer -/

theorem poises_download {address size : Nat} : Poises (download address size) := by
  intro b hb
  unfold download
  rw [wp_bind, BootM.wp_getRam]
  dsimp only
  rw [wp_ite]
  split
  · exact hb
  rw [wp_ite]
  split
  · exact hb
  rw [wp_ite]
  split
  · exact hb
  rename_i hready
  have herase : b.ram.programming.eraseComplete = true := by
    simp only [Bool.or_eq_true, not_or] at hready
    simpa using hready.1.1.1.1.1
  apply (BootUpdate.recorded_setState Tending.recorded b).seq hb.cycled
  intro ok b₁ h₁ _
  rw [wp_ite]
  split
  · exact hb.spares h₁
  rw [wp_bind, BootM.wp_setProgramming]
  refine (hb.spares h₁).context ⟨rfl, rfl, rfl, le_refl _⟩ fun _ => ?_
  show b₁.ram.programming.eraseComplete = true
  rw [h₁.programming, herase]

/-- A phrase of the payload is programmed where it was renewed, and counted. -/
theorem wp_flushPhrase (hb : Poised b) (hdownload : b.ram.programming.downloadActive = true) :
    wp flushPhrase (fun ok b' => b'.Cycled ∧
      (ok = true → Poised b' ∧ b'.ram.programming.downloadActive = true)) Board.Cycled b := by
  obtain ⟨t, ht, haddress, hrenewed⟩ := hb.rest (hb.downloading hdownload)
  have hfail : ∀ {b' : Board}, b'.Cycled → b'.Cycled ∧
      (false = true → Poised b' ∧ b'.ram.programming.downloadActive = true) :=
    fun hc => ⟨hc, fun h => by cases h⟩
  -- counting the phrase is all that happens to the context
  have hflushed : ∀ {b' : Board} {c : Context}, b'.Cycled → SameTarget b.ram.programming c →
      c.downloadActive = true → (∀ a, t.base + (c.programmedSize + flashPhraseSize) ≤ a →
        a < t.header → b'.Renewed a) →
      Poised { b' with ram := { b'.ram with programming := phraseFlushed c } } := by
    intro b' c hc hsame _ hrest
    refine ⟨hc, fun _ => ?_, fun _ => ?_⟩
    · show c.eraseComplete = true
      rw [hsame.eraseComplete]
      exact hb.downloading hdownload
    · exact ⟨t, hsame.targetSlot.trans ht, hsame.targetAddress.trans haddress, hrest⟩
  have hphrase : flashPhraseSize = 8 := rfl
  unfold flushPhrase
  rw [wp_bind, BootM.wp_getRam]
  dsimp only
  rw [ht, haddress]
  rw [wp_ite]
  split
  · exact hfail hb.cycled
  rw [wp_ite]
  split
  · rw [wp_bind]
    refine ⟨hb.cycled, fun _ => ⟨?_, hdownload⟩⟩
    refine hflushed (c := { b.ram.programming with stagedHeader := _ }) hb.cycled
      ⟨rfl, rfl, rfl, le_refl _⟩ hdownload fun a hlo hhi => ?_
    have hlo : t.base + (b.ram.programming.programmedSize + flashPhraseSize) ≤ a := hlo
    exact hrenewed a (by omega) hhi
  rename_i hheader
  rw [wp_ite]
  split
  · exact hfail hb.cycled
  rename_i htail
  -- before the header the phrase is renewed, and after it the phrase is blank
  have hprogram : Sparing (Outside (t.base + b.ram.programming.programmedSize) flashPhraseSize)
      (BootFlash.program (t.base + b.ram.programming.programmedSize)
        b.ram.programming.transferBuffer flashPhraseSize) (fun _ b' => b'.ram = b.ram) b := by
    by_cases hbefore : t.base + b.ram.programming.programmedSize < t.header
    · apply BootFlash.sparing_program
      intro haligned a hlo hhi
      have hheader : t.header % 8 = 0 := by cases t <;> decide
      rw [hphrase] at haligned
      exact hrenewed a hlo (by omega)
    · apply BootFlash.sparing_programBlank
      have hafter : t.header + BootImageHeader.size ≤ t.base + b.ram.programming.programmedSize := by
        have hheader : ¬ (t.header ≤ t.base + b.ram.programming.programmedSize ∧
          t.base + b.ram.programming.programmedSize < t.header + BootImageHeader.size) := hheader
        omega
      by_contra hblank
      exact htail ⟨hafter, by simpa using hblank⟩
  apply hprogram.seq hb.cycled
  intro ok b₁ h₁ hram
  rw [wp_ite]
  split
  · exact hfail (h₁.cycled hb.cycled)
  rw [wp_bind]
  refine ⟨h₁.cycled hb.cycled, fun _ => ⟨?_, ?_⟩⟩
  · have hc : b₁.ram.programming = b.ram.programming := by rw [hram]
    apply hflushed (h₁.cycled hb.cycled)
    · rw [hc]
      exact .refl _
    · rw [hc, hdownload]
    · intro a hlo hhi
      rw [hc] at hlo
      exact h₁.renewed a (.inr (by omega)) (hrenewed a (by omega) hhi)
  · show b₁.ram.programming.downloadActive = true
    rw [hram, hdownload]

/-- A block that fails leaves the log in order, and its transfer is given up. -/
theorem wp_transferLoop {data : List Byte} (hb : Poised b)
    (hdownload : b.ram.programming.downloadActive = true) :
    wp (transferLoop data) (fun ok b' => b'.Cycled ∧ (ok = true → Poised b')) Board.Cycled b := by
  induction data generalizing b with
  | nil => exact ⟨hb.cycled, fun _ => hb⟩
  | cons byte bytes ih =>
    have hb₁ : Poised { b with ram := { b.ram with programming := { b.ram.programming with
        transferBuffer := Function.update b.ram.programming.transferBuffer
          b.ram.programming.bufferedSize byte
        bufferedSize := b.ram.programming.bufferedSize + 1 } } } :=
      hb.context ⟨rfl, rfl, rfl, le_refl _⟩ hb.downloading
    unfold transferLoop
    rw [wp_bind, BootM.wp_setProgramming, wp_bind, BootM.wp_getRam, wp_ite]
    split
    · apply wp_seq (wp_flushPhrase hb₁ hdownload)
      · rintro ok b₂ ⟨hc₂, h₂⟩
        rw [wp_ite]
        split
        · exact ⟨hc₂, fun h => by cases h⟩
        · rename_i hok
          obtain ⟨hb₂, hdownload₂⟩ := h₂ (by simpa using hok)
          exact ih hb₂ hdownload₂
      · exact fun _ hc => hc
    · exact ih hb₁ hdownload

theorem poises_transfer {sequence : Byte} {data : List Byte} : Poises (transfer sequence data) := by
  intro b hb
  unfold transfer
  rw [wp_bind, BootM.wp_getRam]
  dsimp only
  rw [wp_ite]
  split
  · exact hb
  rw [wp_ite]
  split
  · exact hb
  rename_i hdownload
  have hdownload : b.ram.programming.downloadActive = true := by simpa using hdownload
  rw [wp_ite]
  split
  · exact hb
  rw [wp_ite]
  split
  · exact hb
  rw [wp_ite]
  split
  · exact hb
  apply wp_seq (wp_transferLoop hb hdownload)
  · intro ok b₁ ⟨hc₁, h₁⟩
    rw [wp_ite]
    split
    · exact wp_giveUp hc₁
    rename_i hok
    have hb₁ : Poised b₁ := h₁ (by simpa using hok)
    have hrest : Poises (do
        BootM.setProgramming fun c => { c with receivedSize := c.receivedSize + data.length }
        let ram ← BootM.getRam
        if !(← BootUpdate.setProgress ram.programming.programmedSize sequence) then
          abort
          return (0x72 : Byte)
        BootM.setProgramming fun c =>
          { c with expectedBlockSequenceCounter := c.expectedBlockSequenceCounter + 1 }
        return 0) := by
      apply Poises.bind
      · exact .setProgramming (fun _ => ⟨rfl, rfl, rfl, le_refl _⟩) fun _ => rfl
      intro _
      apply Poises.sequenced.getRam
      intro ram
      apply (Poises.of_tending (BootUpdate.recorded_setProgress Tending.recorded)).bind
      intro ok
      apply Poises.sequenced.ite
      · exact Poises.bind (fun b hb => wp_abort hb.cycled) fun _ => Poises.sequenced.pure _
      apply Poises.bind
      · exact .setProgramming (fun _ => ⟨rfl, rfl, rfl, le_refl _⟩) fun _ => rfl
      · exact fun _ => Poises.sequenced.pure _
    exact hrest b₁ hb₁
  · exact fun _ hc => hc

theorem poises_exit : Poises exit := by
  apply Poises.sequenced.getRam
  intro ram
  apply Poises.sequenced.ite (Poises.sequenced.pure _)
  apply Poises.sequenced.ite (Poises.sequenced.pure _)
  apply (Poises.of_tending (BootUpdate.recorded_markTransferComplete Tending.recorded)).bind
  intro ok
  apply Poises.sequenced.ite (Poises.sequenced.pure _)
  apply Poises.bind
  · intro b hb
    exact hb.context ⟨rfl, rfl, rfl, le_refl _⟩ fun h => by cases h
  · exact fun _ => Poises.sequenced.pure _

/-! ## Verify -/

/-- The header is published right after the erasure of its sector. -/
theorem poises_verifyPublish {c : Context} (ht : c.targetSlot = some t) :
    Poises (verifyPublish c) := by
  have hpublished : Poises (verifyPublished c) := by
    apply Poises.sequenced.flash
    intro mem
    apply Poises.bind
    · exact .setProgramming (fun _ => ⟨rfl, rfl, rfl, le_refl _⟩) fun _ => rfl
    intro _
    apply Poises.sequenced.ite (Poises.of_tending tending_refuse)
    apply (Poises.of_tending (BootUpdate.recorded_markVerified Tending.recorded)).bind
    intro ok
    apply Poises.sequenced.ite (Poises.sequenced.pure _)
    apply Poises.bind
    · exact .setProgramming (fun _ => ⟨rfl, rfl, rfl, le_refl _⟩) fun _ => rfl
    · exact fun _ => Poises.sequenced.pure _
  intro b hb
  unfold verifyPublish
  rw [ht]
  apply BootFlash.sparing_eraseHeader.seq hb.cycled
  intro ok b₁ h₁ ⟨_, hrenewed⟩
  have hb₁ := hb.spares h₁
  rw [wp_ite]
  split
  · exact wp_giveUp hb₁.cycled
  rename_i hok
  have hok : ok = true := by simpa using hok
  apply (BootFlash.sparing_programHeader (by decide) (hrenewed hok)).seq hb₁.cycled
  intro ok' b₂ h₂ _
  have hb₂ := hb₁.spares h₂
  rw [wp_ite]
  split
  · exact wp_giveUp hb₂.cycled
  apply (BootIsoTp.tending_transmit b₂).seq hb₂.cycled
  intro ok b₃ h₃ _
  have hb₃ := hb₂.spares h₃
  rw [wp_ite]
  split
  · exact hb₃
  · exact hpublished b₃ hb₃

theorem poises_verify : Poises verify := by
  intro b hb
  unfold verify
  rw [wp_bind, BootM.wp_getRam]
  dsimp only
  rw [wp_ite]
  split
  · exact hb
  rw [wp_ite]
  split
  · exact hb
  rename_i hready
  have herase : b.ram.programming.eraseComplete = true := by
    simp only [Bool.or_eq_true, not_or] at hready
    simpa using hready.1.1.1
  obtain ⟨t, ht, -⟩ := hb.rest herase
  have hrest : Poises (do
      if !(← BootIsoTp.transmit) then return 0x72
      if !(← BootUpdate.setState .verifying) then return 0x72
      let mem ← BootM.flash
      let result := (BootImage.validate mem b.ram.programming.targetSlot
        { BootImage.zeroInfo with header := b.ram.programming.stagedHeader }).validationResult
      BootM.setProgramming fun c => { c with validationResult := result }
      if result ≠ .valid then
        let _ ← BootUpdate.abort .badImage
        return 0x72
      if b.ram.programming.activeSlot.isSome ∧
          BootVersion.compare b.ram.programming.stagedHeader.softwareVersion
            b.ram.programming.activeVersion ≠ .greater then
        let _ ← BootUpdate.abort .badImage
        return 0x31
      if !(← BootIsoTp.transmit) then return 0x72
      verifyPublish b.ram.programming) := by
    have htransmit : Poises BootIsoTp.transmit := .of_tending BootIsoTp.tending_transmit
    apply htransmit.bind
    intro ok
    apply Poises.sequenced.ite (Poises.sequenced.pure _)
    apply (Poises.of_tending (BootUpdate.recorded_setState Tending.recorded)).bind
    intro ok
    apply Poises.sequenced.ite (Poises.sequenced.pure _)
    apply Poises.sequenced.flash
    intro mem
    apply Poises.bind
    · exact .setProgramming (fun _ => ⟨rfl, rfl, rfl, le_refl _⟩) fun _ => rfl
    intro _
    apply Poises.sequenced.ite (Poises.of_tending tending_refuse)
    apply Poises.sequenced.ite (Poises.of_tending tending_refuse)
    apply htransmit.bind
    intro ok
    exact Poises.sequenced.ite (Poises.sequenced.pure _) (poises_verifyPublish ht)
  exact hrest b hb

end BootProgramming

/-! ## Every request -/

theorem Poises.answered : Answered @Poises where
  toManaged := Poises.managed
  setSecurity g := .of_tending <| .modify (by exact fun _ => rfl) (by exact fun _ => rfl)
  setUds g := .of_tending <| .modify (by exact fun _ => rfl) (by exact fun _ => rfl)
  transmit := .of_tending BootIsoTp.tending_transmit
  setAccess _ _ := .setProgramming (fun _ => ⟨rfl, rfl, rfl, le_refl _⟩) fun _ => rfl
  clear b hb := BootProgramming.wp_abort hb.cycled
  restart _ _ b hb := .of_clear hb.cycled rfl rfl
  erase _ _ := BootProgramming.poises_erase
  download _ _ := BootProgramming.poises_download
  transfer _ _ := BootProgramming.poises_transfer
  exit := BootProgramming.poises_exit
  verify := BootProgramming.poises_verify
  abort _ := .of_tending (BootUpdate.recorded_abort Tending.recorded)
  initializeJournal _ := .of_tending (BootUpdate.recorded_initializeJournal Tending.recorded)

/-! ## The life of a device -/

/-- What the bootloader does in one go. -/
inductive Activity where
  | boot
  | request (q : List Byte)
  | tick

/-- Runs an activity; the result tells whether the server waits for the next one. -/
def Activity.run : Activity → BootM Bool
  | .boot => do
    match ← BootManager.run with
    | .programming =>
      BootUds.init
      return true
    | _ => return false
  | .request q => do
    let _ ← BootUds.processRequest q
    return true
  | .tick => do
    BootUds.mainFunction
    return true

/-- The board after a reset: the variables are those of the start-up code. -/
def Turn.restart (e : Turn) (r : RetainedRecord) (d : Device Note) : Board :=
  ⟨{ d with fates := e.fates }, Ram.startup, r, e.hw⟩

/-- A device that a run of `m` comes through: where it ends, or between two of its commands. -/
def Passes {α : Type} (m : BootM α) (b : Board) (d : Device Note) : Prop :=
  d = (m b).state.dev ∨
    (Evolves (fun _ _ _ => True) b.dev d ∧ Evolves (fun _ _ _ => True) d (m b).state.dev)

/-- A device in reset, or a board whose server waits. -/
inductive Phase where
  | reset (d : Device Note)
  | serving (b : Board)

def Phase.log : Phase → List (Event Note)
  | .reset d => d.log
  | .serving b => b.dev.log

/-- The phases of a device that no command has been issued to yet: boots and turns of the server, as
    the environment decides, and a reset at any step of them. -/
inductive Lives : Phase → Prop where
  | new {d : Device Note} (h : d.log = []) : Lives (.reset d)
  | boot {d : Device Note} {b : Board} (e : Turn) (r : RetainedRecord) (h : Lives (.reset d))
    (hb : Activity.boot.run (e.restart r d) = .done true b) : Lives (.serving b)
  | interruptBoot {d d' : Device Note} (e : Turn) (r : RetainedRecord) (h : Lives (.reset d))
    (hd : Passes Activity.boot.run (e.restart r d) d') : Lives (.reset d')
  | serve {b b' : Board} (a : Activity) (e : Turn) (h : Lives (.serving b)) (ha : a ≠ .boot)
    (hb : a.run (e.on b) = .done true b') : Lives (.serving b')
  | interrupt {b : Board} {d : Device Note} (a : Activity) (e : Turn) (h : Lives (.serving b))
    (ha : a ≠ .boot) (hd : Passes a.run (e.on b) d) : Lives (.reset d)

/-- Between two program commands for a byte there is an erase that left its sector erased. -/
def EraseFirst (log : List (Event Note)) : Prop :=
  ∀ (newer mid older : List (Event Note)) (a base₁ size₁ base₂ size₂ : Nat)
    (data₁ data₂ mem₁ mem₂ : Nat → Byte),
    log = newer ++ .command (.program base₂ size₂ data₂) mem₂ ::
      (mid ++ .command (.program base₁ size₁ data₁) mem₁ :: older) →
    base₁ ≤ a → a < base₁ + size₁ → base₂ ≤ a → a < base₂ + size₂ →
    ∃ mem, .command (.erase (a / flashSectorSize * flashSectorSize) flashSectorSize) mem ∈ mid ∧
      Erased mem (a / flashSectorSize * flashSectorSize) flashSectorSize

theorem EraseFirst.of_cycled {log : List (Event Note)} (h : Cycled flashSectorSize log) :
    EraseFirst log := by
  intro newer mid older a base₁ size₁ base₂ size₂ data₁ data₂ mem₁ mem₂ hlog hlo₁ hhi₁ hlo₂ hhi₂
  rw [hlog] at h
  obtain ⟨r, hmem, hr⟩ := h.between (a := a) ⟨hlo₁, hhi₁⟩ ⟨hlo₂, hhi₂⟩
  cases r with
  | note _ => exact hr.elim
  | command c mem =>
    cases c with
    | program base size data => exact hr.elim
    | erase base size =>
      obtain ⟨hsize, hdvd, hlo, hhi, herased⟩ := hr
      -- the erased sector is the one of the byte
      have hbase : base = a / flashSectorSize * flashSectorSize := by
        obtain ⟨k, hk⟩ := hdvd
        rw [hsize, hk] at hhi
        rw [hk] at hlo ⊢
        have hdiv : a / flashSectorSize = k := by
          apply Nat.div_eq_of_lt_le
          · rwa [Nat.mul_comm]
          · rw [Nat.succ_mul, Nat.mul_comm]
            exact hhi
        rw [hdiv, Nat.mul_comm]
      rw [hsize, hbase] at hmem herased
      exact ⟨mem, hmem, herased⟩

/-- The log grows at its head. -/
theorem NorFlash.Evolves.log_append {R : CommandRel} {d d' : Device Note} (h : Evolves R d d') :
    ∃ newer, d'.log = newer ++ d.log := by
  induction h with
  | refl => exact ⟨[], rfl⟩
  | command c n _ _ ih =>
    obtain ⟨newer, hnewer⟩ := ih
    exact ⟨.command c _ :: newer, congrArg _ hnewer⟩

/-- No command has been issued between two devices with logs of the same length. -/
theorem NorFlash.Evolves.mem_of_log {R : CommandRel} {d d' : Device Note} (h : Evolves R d d')
    (hlog : d'.log.length = d.log.length) : d'.mem = d.mem := by
  cases h with
  | refl => rfl
  | command c n h _ =>
    obtain ⟨newer, hnewer⟩ := h.log_append
    rw [Device.after_log, hnewer, List.length_cons, List.length_append] at hlog
    omega

theorem Activity.poises_run (a : Activity) : Poises a.run := by
  cases a with
  | boot =>
    apply (Poises.of_tending BootManager.tending_run).bind
    intro exit
    cases exit with
    | programming => exact (BootUds.answered_init Poises.answered).bind fun _ =>
        Poises.sequenced.pure _
    | reset => exact Poises.sequenced.pure _
    | jumped slot => exact Poises.sequenced.pure _
    | error => exact Poises.sequenced.pure _
  | request q => exact (BootUds.answered_processRequest Poises.answered).bind fun _ =>
      Poises.sequenced.pure _
  | tick => exact (BootUds.answered_mainFunction Poises.answered).bind fun _ =>
      Poises.sequenced.pure _

/-- What a reset finds is in order. -/
theorem Poises.passes {α : Type} {m : BootM α} {b : Board} {d : Device Note} (h : Poises m)
    (hb : Poised b) (hd : Passes m b d) : Cycled flashSectorSize d.log := by
  have hlast : (m b).state.Cycled :=
    wp_state (P := Board.Cycled) (wp_mono (h b hb) (fun _ _ hb' => hb'.cycled) fun _ hc => hc)
  rcases hd with hd | ⟨-, hd⟩
  · rw [hd]
    exact hlast
  · obtain ⟨newer, hnewer⟩ := hd.log_append
    unfold Board.Cycled at hlast
    rw [hnewer] at hlast
    exact hlast.of_append

/-- A device in reset has its log in order, and a waiting server is poised. -/
def Phase.InOrder : Phase → Prop
  | .reset d => Cycled flashSectorSize d.log
  | .serving b => Poised b

/-- After a reset there is no download. -/
theorem Turn.poised_restart (e : Turn) (r : RetainedRecord) {d : Device Note}
    (h : Cycled flashSectorSize d.log) : Poised (e.restart r d) :=
  .of_clear h rfl rfl

theorem Turn.poised_on (e : Turn) {b : Board} (h : Poised b) : Poised (e.on b) where
  cycled := h.cycled
  downloading := h.downloading
  rest := h.rest

theorem Lives.inOrder {p : Phase} (h : Lives p) : p.InOrder := by
  induction h with
  | @new d h =>
    show Cycled flashSectorSize d.log
    rw [h]
    trivial
  | boot e r _ hb ih =>
    exact wp_of_eq_done (Q := fun _ => Poised)
      (Activity.poises_run .boot _ (e.poised_restart r ih)) hb
  | interruptBoot e r _ hd ih =>
    exact (Activity.poises_run .boot).passes (e.poised_restart r ih) hd
  | serve a e _ _ hb ih =>
    exact wp_of_eq_done (Q := fun _ => Poised) (a.poises_run _ (e.poised_on ih)) hb
  | interrupt a e _ _ hd ih => exact a.poises_run.passes (e.poised_on ih) hd

theorem Phase.InOrder.cycled {p : Phase} (h : p.InOrder) : Cycled flashSectorSize p.log := by
  cases p with
  | reset d => exact h
  | serving b => exact Poised.cycled h

/-- No byte is programmed twice without an erase of its sector in between. -/
theorem Lives.eraseFirst {p : Phase} (h : Lives p) : EraseFirst p.log :=
  .of_cycled h.inOrder.cycled

/-- The run leaves the server waiting. -/
def Outcome.waits : Outcome Board Bool → Bool
  | .done ok _ => ok
  | .cut _ => false

theorem Outcome.eq_done_of_waits {o : Outcome Board Bool} (h : o.waits = true) :
    o = .done true o.state := by
  cases o with
  | done ok b => exact congrArg (Outcome.done · b) h
  | cut b => cases h

/-! ## A journal that is torn twice -/

variable {b : Board} {n : Nat} {record : BootUpdateJournal} {d : Device Note}

/-- The device after a write of copy `k` that is cut in its first phrase. -/
def NorFlash.Device.torn (k : Fin 2) (record : BootUpdateJournal) (n : Nat) (d : Device Note) :
    Device Note :=
  (d.after (.erase (FlashDriver.journalAddress k) flashSectorSize) flashSectorSize).after
    (.program (FlashDriver.journalAddress k) flashPhraseSize
      (BootJournal.recordFormat.encode record)) n

/-- A run that a cut ends with this device. -/
structure CutAt {α : Type} (o : Outcome Board α) (d : Device Note) : Prop where
  exists_cut : ∃ b, o = .cut b ∧ b.dev = d

namespace CutAt

variable {α β : Type} {m m' : BootM α} {p : Prop} [Decidable p]

theorem of_wp (h : wp m (fun _ _ => False) (fun b' => b'.dev = d) b) : CutAt (m b) d := by
  unfold wp at h
  cases hm : m b with
  | done a b' =>
    rw [hm] at h
    exact h.elim
  | cut b' =>
    rw [hm] at h
    exact ⟨b', rfl, h⟩

theorem bind {f : α → BootM β} (h : CutAt (m b) d) : CutAt ((m >>= f) b) d := by
  obtain ⟨b', hm, hd⟩ := h
  refine ⟨b', ?_, hd⟩
  simp only [Bind.bind, hm]

theorem getRam {f : Ram → BootM β} (h : CutAt (f b.ram b) d) :
    CutAt ((BootM.getRam >>= f) b) d := h

theorem setProgramming {g : BootProgramming.Context → BootProgramming.Context}
    {f : Unit → BootM β} (h : CutAt (f () { b with ram := { b.ram with
      programming := g b.ram.programming } }) d) :
    CutAt ((BootM.setProgramming g >>= f) b) d := h

theorem transmit {f : Bool → BootM β} (h : CutAt (f (b.hw.transmits.headD true)
      { b with hw := { b.hw with transmits := b.hw.transmits.tail } }) d) :
    CutAt ((BootIsoTp.transmit >>= f) b) d := h

theorem ite_neg (hp : ¬ p) (h : CutAt (m' b) d) : CutAt ((if p then m else m') b) d := by
  rw [if_neg hp]
  exact h

theorem ite_pos (hp : p) (h : CutAt (m b) d) : CutAt ((if p then m else m') b) d := by
  rw [if_pos hp]
  exact h

end CutAt

theorem BootJournal.writeCopy_cut (k : Fin 2) (hf : b.dev.fates = [.ok, .cut n])
    (hready : b.ram.flash.ready = true) (hvalid : recordFormat.valid record = true)
    (hblank : TwoCopy.blank (recordFormat.encode record) flashPhraseSize = false) :
    CutAt (TwoCopy.writeCopy recordFormat BootJournalStorage.port k record b)
      (b.dev.torn k record n) := by
  have hdata : (fun i => recordFormat.encode record (0 + i)) = recordFormat.encode record := by
    funext i
    rw [Nat.zero_add]
  have haligned : FlashDriver.journalAddress k % flashSectorSize = 0 :=
    Nat.mod_eq_zero_of_dvd (FlashDriver.dvd_journalAddress k)
  have hphrase : FlashDriver.journalAddress k % flashPhraseSize = 0 :=
    Nat.mod_eq_zero_of_dvd (dvd_trans (by decide) (FlashDriver.dvd_journalAddress k))
  apply CutAt.of_wp
  unfold TwoCopy.writeCopy
  rw [wp_ite, if_neg (by simp [hvalid])]
  have herase : wp (BootJournalStorage.port.erase k) (fun ok b' => ok = true ∧ b' = b.setDev
      (b.dev.after (.erase (FlashDriver.journalAddress k) flashSectorSize) flashSectorSize))
      (fun _ => False) b := by
    show wp (BootJournalStorage.erase k) _ _ b
    unfold BootJournalStorage.erase BootFlash.apiValid FlashDriver.journalErase
    rw [wp_bind, BootM.wp_getRam, wp_ite, if_neg (by simp [hready])]
    exact FlashDriver.wp_windowErase_ok haligned (by rw [hf]; rfl)
  refine wp_seq herase ?_ fun _ h => h.elim
  rintro ok b' ⟨rfl, rfl⟩
  rw [wp_ite, if_neg (by decide), wp_bind,
    show recordFormat.size / BootJournalStorage.port.phrase = 15 + 1 from rfl]
  unfold TwoCopy.programPhrases
  rw [wp_bind, hdata]
  show wp (BootJournalStorage.program k 0 _ flashPhraseSize) _ _ _
  unfold BootJournalStorage.program BootFlash.apiValid FlashDriver.journalProgram
  rw [wp_bind, BootM.wp_getRam, wp_ite, if_neg (by simp [hready]), wp_ite, if_neg (by decide)]
  refine FlashDriver.wp_windowProgram_cut hphrase (by decide) hblank ?_
  show b.dev.fates.tail.head? = _
  rw [hf]
  rfl

/-- The first journal of a device without an image. -/
def firstJournal : BootUpdateJournal := BootJournal.completed 1 (BootUpdate.commissionRecord none)

theorem BootUpdate.initializeJournal_cut (hf : b.dev.fates = [.ok, .cut n])
    (hready : b.ram.flash.ready = true) (hallowed : commissionAllowed b.mem none = true)
    (hunset : ∀ k j, BootJournal.loadLatest b.mem ≠ .valid k j) :
    CutAt (initializeJournal none b) (b.dev.torn 0 firstJournal n) := by
  have hcut : CutAt (TwoCopy.writeCopy BootJournal.recordFormat BootJournalStorage.port 0
      firstJournal b) _ :=
    BootJournal.writeCopy_cut 0 hf hready (by decide +kernel) (by decide +kernel)
  have hstore : BootJournal.initializeStore (commissionRecord none) b =
      TwoCopy.writeCopy BootJournal.recordFormat BootJournalStorage.port 0 firstJournal b := by
    unfold BootJournal.initializeStore BootJournal.commitRecord firstJournal
    generalize TwoCopy.writeCopy BootJournal.recordFormat BootJournalStorage.port 0
      (BootJournal.completed 1 (commissionRecord none)) = m
    simp only [bind, BootM.flash]
    cases hload : BootJournal.loadLatest b.mem with
    | valid k j => exact absurd hload (hunset k j)
    | empty => rfl
    | invalid => rfl
  rw [initializeJournal_unset hunset]
  unfold initializeUnset
  rw [if_neg (by simp [hallowed])]
  apply CutAt.bind
  rw [hstore]
  exact hcut

/-- A server that takes the commissioning of a journal without an image. -/
def Board.commissionable (b : Board) : Bool :=
  b.ram.uds.session == 2 && b.ram.security.unlocked && b.ram.flash.ready &&
    b.hw.transmits.headD true && BootUpdate.commissionAllowed b.mem none &&
    match BootJournal.loadLatest b.mem with
    | .valid _ _ => false
    | _ => true

/-- The request for it. -/
def commissioning : List Byte := [0x31, 1, 0xFF, 0x02, 0xFF]

theorem Board.commissionable.cut (h : b.commissionable = true)
    (hf : b.dev.fates = [.ok, .cut n]) :
    CutAt ((Activity.request commissioning).run b) (b.dev.torn 0 firstJournal n) := by
  unfold commissionable at h
  simp only [Bool.and_eq_true, beq_iff_eq] at h
  obtain ⟨⟨⟨⟨⟨hsession, hunlocked⟩, hready⟩, htransmit⟩, hallowed⟩, hload⟩ := h
  have hunset : ∀ k j, BootJournal.loadLatest b.mem ≠ .valid k j := by
    intro k j hvalid
    rw [hvalid] at hload
    cases hload
  -- down to the service
  unfold Activity.run BootUds.processRequest
  apply CutAt.bind
  apply CutAt.ite_neg (by decide)
  apply CutAt.getRam
  unfold BootProgramming.setAccess
  apply CutAt.setProgramming
  apply CutAt.bind
  unfold BootUds.service
  iterate 3 apply CutAt.ite_neg (by decide)
  apply CutAt.ite_pos (by decide)
  -- down to the routine
  unfold BootUds.routineControl
  iterate 2 apply CutAt.ite_neg (by decide)
  dsimp only
  iterate 2 apply CutAt.ite_neg (by decide)
  apply CutAt.ite_pos (by decide)
  apply CutAt.bind
  -- and through what it checks
  unfold BootUds.commission
  apply CutAt.getRam
  apply CutAt.ite_neg (by decide)
  apply CutAt.ite_neg (by simp [hsession])
  apply CutAt.ite_neg (by simp [hunlocked])
  dsimp only
  apply CutAt.ite_neg (by decide)
  apply CutAt.transmit
  dsimp only
  apply CutAt.ite_neg (by simp only [htransmit]; decide)
  apply CutAt.bind
  rw [if_pos (by decide)]
  exact @BootUpdate.initializeJournal_cut _ n hf hready hallowed hunset

/-- Power that lasts, and power that is cut in the second command. -/
def Turn.powered : Turn := ⟨[], .powerOn⟩

def Turn.torn : Turn := ⟨[.ok, .cut 1], .powerOn⟩

/-- A boot, and the three requests that unlock the server. -/
def unlocking (d : Device Note) : List (Outcome Board Bool) :=
  let o₀ := Activity.boot.run (Turn.powered.restart ⟨0, 0, 0, 0⟩ d)
  let o₁ := (Activity.request [0x10, 2]).run (Turn.powered.on o₀.state)
  let o₂ := (Activity.request [0x27, 1]).run (Turn.powered.on o₁.state)
  let o₃ := (Activity.request ([0x27, 2] ++ BootUds.write32
    (BootSecurity.expectedKey o₂.state.ram.security.seed))).run (Turn.powered.on o₂.state)
  [o₀, o₁, o₂, o₃]

/-- The server when the power is about to be cut. -/
def unlockedTorn (d : Device Note) : Board :=
  Turn.torn.on ((unlocking d).getLast (by simp [unlocking])).state

/-- The device is switched on, its server is unlocked, and its commissioning is torn. -/
theorem Lives.torn (h : Lives (.reset d)) (hwaits : (unlocking d).all Outcome.waits = true)
    (hc : (unlockedTorn d).commissionable = true) :
    Lives (.reset ((unlockedTorn d).dev.torn 0 firstJournal 1)) := by
  have hno : ∀ q, Activity.request q ≠ .boot := fun q hq => by cases hq
  obtain ⟨h₀, h₁, h₂, h₃⟩ : _ ∧ _ ∧ _ ∧ _ := by
    simpa only [unlocking, List.all_cons, List.all_nil, Bool.and_true, Bool.and_eq_true] using hwaits
  have hboot := h.boot Turn.powered ⟨0, 0, 0, 0⟩ (Outcome.eq_done_of_waits h₀)
  have hsession := hboot.serve _ Turn.powered (hno _) (Outcome.eq_done_of_waits h₁)
  have hseed := hsession.serve _ Turn.powered (hno _) (Outcome.eq_done_of_waits h₂)
  have hunlocked := hseed.serve _ Turn.powered (hno _) (Outcome.eq_done_of_waits h₃)
  obtain ⟨b, hrun, hdev⟩ := Board.commissionable.cut hc (n := 1) rfl
  have hstate : b.dev = ((Activity.request commissioning).run (unlockedTorn d)).state.dev := by
    rw [hrun]
    rfl
  rw [← hdev]
  exact hunlocked.interrupt (.request commissioning) Turn.torn (hno _) (.inl hstate)

/-- How often the phrase at `a` has been programmed. -/
def programsOf (a : Nat) (log : List (Event Note)) : Nat :=
  log.countP fun
    | .command (.program base _ _) _ => base = a
    | _ => false

/-- An erased device loses its power in the first phrase of its journal, and so it does after it has
    been switched on again: the phrase has been programmed twice, and erased in between. -/
theorem Lives.eraseFirst_torn : ∃ p, Lives p ∧ programsOf journalCopy0Address p.log = 2 ∧
    EraseFirst p.log := by
  have hnew : Lives (.reset Board.blank.dev) := .new rfl
  have honce := hnew.torn (by decide +kernel) (by decide +kernel)
  have htwice := honce.torn (by decide +kernel) (by decide +kernel)
  refine ⟨_, htwice, ?_, Lives.eraseFirst htwice⟩
  decide +kernel
