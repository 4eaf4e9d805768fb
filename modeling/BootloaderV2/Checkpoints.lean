import BootloaderV2.CommitCount
import BootloaderV2.Transfer
import BootloaderV2.WriteAhead

/-!
# Checkpoints

While a transaction is being programmed the journal counts whole checkpoints, and only bytes that
have been received, programmed and read back.  This holds at each command, whatever fails, and an
update that goes through makes the same number of commits for every chunking.
-/

open BootConfig NorFlash CrashM TwoCopy

open BootJournal (Current)

open BootUpdate (InStep JournalOnly Logged)

theorem Issues.and_ensures {α : Type} {R : CommandRel} {m : BootM α} {Q Q' : α → Board → Prop}
    {b : Board} (h : Issues R m Q b) (h' : Ensures m Q' b) :
    Issues R m (fun a b' => Q a b' ∧ Q' a b') b :=
  wp_mono (wp_and h h') (fun _ _ hb => ⟨hb.1.1, hb.1.2, hb.2⟩) fun _ hb => hb.1

/-- What a record says is backed by the flash, when `data` are the bytes received in its
    transaction. -/
structure Backed (data : List Byte) (j : BootUpdateJournal) (m : Nat → Byte) : Prop where
  checkpoint : j.state = BootUpdateState.programming.code →
    BootJournal.checkpoint ∣ j.committedSize.toNat
  durable : j.state = BootUpdateState.programming.code → ∃ t : Slot, j.targetSlot = t.code ∧
    t.base + j.committedSize.toNat ≤ t.header ∧
    ∀ i, i < j.committedSize.toNat → data[i]? = some (m (t.base + i))
  complete : j.committedSize = j.expectedSize → BootUpdateState.transferComplete.code ≤ j.state

/-- From one checkpoint to the next the committed size increases, and it is completed together with
    the transfer only. -/
structure Advances (m m' : Nat → Byte) : Prop where
  increases : ∀ j j', Current m j → Current m' j' → j' ≠ j →
    j.state = BootUpdateState.programming.code → j'.state = BootUpdateState.programming.code →
    j.committedSize.toNat < j'.committedSize.toNat
  completes : ∀ j j', Current m j → Current m' j' → j'.committedSize = j'.expectedSize →
    j.committedSize = j.expectedSize ∨ j'.state = BootUpdateState.transferComplete.code

/-- A command that leaves a backed journal, and no checkpoint that is not beyond the last one. -/
def Checked (data : List Byte) : CommandRel := fun _ m m' =>
  (∃ j, Current m' j ∧ Backed data j m') ∧ Advances m m'

namespace Backed

variable {data : List Byte} {j : BootUpdateJournal} {m m' : Nat → Byte} {t : Slot}

/-- Outside the state PROGRAMMING nothing is said of the slot. -/
theorem of_state (h : j.state ≠ BootUpdateState.programming.code)
    (hcomplete : j.committedSize = j.expectedSize →
      BootUpdateState.transferComplete.code ≤ j.state) : Backed data j m where
  checkpoint hst := absurd hst h
  durable hst := absurd hst h
  complete := hcomplete

theorem completed (n : Word) (h : Backed data j m) : Backed data (BootJournal.completed n j) m where
  checkpoint := h.checkpoint
  durable := h.durable
  complete := h.complete

/-- Only the committed bytes matter. -/
theorem congr (h : Backed data j m) (hm : j.state = BootUpdateState.programming.code →
    ∀ t : Slot, j.targetSlot = t.code → ∀ i, i < j.committedSize.toNat →
      m' (t.base + i) = m (t.base + i)) : Backed data j m' where
  checkpoint := h.checkpoint
  durable hst := by
    obtain ⟨t, ht, hhi, hbytes⟩ := h.durable hst
    refine ⟨t, ht, hhi, fun i hi => ?_⟩
    rw [hm hst t ht i hi]
    exact hbytes i hi
  complete := h.complete

theorem journalOnly (h : Backed data j m) (hm : JournalOnly m m') : Backed data j m' := by
  have hwas := h
  apply hwas.congr
  intro hst t ht i hi
  obtain ⟨s, hs, hhi, -⟩ := h.durable hst
  have hcode : t = s := Slot.code_injective (ht.symm.trans hs)
  have hend := t.header_lt_journal
  rw [← hcode] at hhi
  apply hm
  left
  omega

end Backed

namespace Checked

variable {data : List Byte} {j next : BootUpdateJournal} {m₀ m m' : Nat → Byte} {c : Command}
  {address size : Nat}

/-- A command below the journal that spares the committed bytes. -/
theorem of_slot (hj : Current m₀ j) (hbacked : Backed data j m₀)
    (hm : SameOutside address size m₀ m) (hm' : SameOutside address size m₀ m')
    (hend : address + size ≤ journalCopy0Address)
    (hspared : j.state = BootUpdateState.programming.code → ∀ t : Slot, j.targetSlot = t.code →
      ∀ i, i < j.committedSize.toNat → t.base + i < address ∨ address + size ≤ t.base + i) :
    Checked data c m m' := by
  have hcurrent : ∀ {m₁ : Nat → Byte}, SameOutside address size m₀ m₁ → Current m₁ j := by
    intro m₁ hout
    apply hj.congr
    intro a ha _
    exact hout a (by omega)
  have hsame : ∀ {j₁ j₂}, Current m j₁ → Current m' j₂ → j₂ = j₁ := by
    intro j₁ j₂ h₁ h₂
    rw [h₁.unique (hcurrent hm), h₂.unique (hcurrent hm')]
  refine ⟨⟨j, hcurrent hm', ?_⟩, ?_, ?_⟩
  · apply hbacked.congr
    intro hst t ht i hi
    exact hm' _ (hspared hst t ht i hi)
  · exact fun j₁ j₂ h₁ h₂ hne => absurd (hsame h₁ h₂) hne
  · intro j₁ j₂ h₁ h₂ hall
    rw [hsame h₁ h₂] at hall
    exact .inl hall

end Checked

/-! ## Saving a record -/

/-- A command of a commit of `next` over the current record `j`. -/
def Swaps (m₀ : Nat → Byte) (j next : BootUpdateJournal) : CommandRel := fun _ m m' =>
  Current m j ∧ (Current m' j ∨ Current m' next) ∧ JournalOnly m₀ m'

theorem Checked.of_swaps {data : List Byte} {j next : BootUpdateJournal} {m₀ m m' : Nat → Byte}
    {c : Command} (h : Swaps m₀ j next c m m') (hj : Backed data j m₀) (hnext : Backed data next m₀)
    (hadvance : j.state = BootUpdateState.programming.code →
      next.state = BootUpdateState.programming.code →
      j.committedSize.toNat < next.committedSize.toNat)
    (hcompletes : next.committedSize = next.expectedSize → j.committedSize = j.expectedSize ∨
      next.state = BootUpdateState.transferComplete.code) : Checked data c m m' := by
  obtain ⟨hm, hm', honly⟩ := h
  refine ⟨?_, ?_, ?_⟩
  · rcases hm' with hold | hnew
    · exact ⟨j, hold, hj.journalOnly honly⟩
    · exact ⟨next, hnew, hnext.journalOnly honly⟩
  · intro j₁ j₂ h₁ h₂ hne hst₁ hst₂
    rw [h₁.unique hm] at hne hst₁ ⊢
    rcases hm' with hold | hnew
    · exact absurd (h₂.unique hold) hne
    · rw [h₂.unique hnew] at hst₂ ⊢
      exact hadvance hst₁ hst₂
  · intro j₁ j₂ h₁ h₂ hall
    rw [h₁.unique hm]
    rcases hm' with hold | hnew
    · rw [h₂.unique hold] at hall
      exact .inl hall
    · rw [h₂.unique hnew] at hall ⊢
      exact hcompletes hall

namespace BootJournal

variable {b : Board} {r : BootUpdateJournal} {j : BootUpdateJournal}

theorem stage_of_writeStep {k : Fin 2} {next : BootUpdateJournal} {c : Command}
    {m₀ m m' : Nat → Byte} (h : WriteStep k next m₀ c m m') : Stage k next m₀ m' := by
  cases h with
  | erase _ h =>
    rcases h with h | h
    · exact .inl h
    · exact .inr ⟨0, Nat.zero_le _, h⟩
  | program p q _ _ _ hp _ hq _ hm' => exact .inr ⟨q, Nat.le_trans hq hp, hm'⟩

/-- `BootJournal_Commit`, command by command. -/
theorem issues_commit_swaps (hj : Current b.mem j) :
    Issues (Swaps b.mem j (completed (j.sequence + 1) r)) (commit r) (fun _ _ => True) b := by
  obtain ⟨k, hl⟩ := hj
  have hnone : ∀ {m : BootM (Option BootUpdateJournal)},
      wp m (fun res b' => res = none ∧ b' = b) (fun _ => False) b →
      Issues (Swaps b.mem j (completed (j.sequence + 1) r)) m (fun _ _ => True) b := by
    intro m hm
    apply wp_mono hm
    · intro res b' ⟨_, hb'⟩
      rw [hb']
      exact ⟨.refl _, trivial⟩
    · exact fun _ h => h.elim
  by_cases hwf : WellFormed r
  swap
  · exact hnone (wp_commit_refused (.inl hwf) ⟨rfl, rfl⟩)
  by_cases hready : b.ram.flash.ready = true
  swap
  · apply hnone
    unfold commit commitRecord
    rw [wp_bind, BootM.wp_flash, hl]
    dsimp only
    rw [if_neg (by decide)]
    exact writeCopy_unready (BootJournalStorage.erase_unready (by simpa using hready)) ⟨rfl, rfl⟩
  have hmono : ∀ d, Evolves (WriteStep (1 - k) (completed (j.sequence + 1) r) b.mem) b.dev d →
      Evolves (Swaps b.mem j (completed (j.sequence + 1) r)) b.dev d := by
    intro d hev
    apply hev.mono
    intro c m m' h
    have hstage := stage_of_writeStep h
    exact ⟨current_of_writeStep hl hwf h, current_of_stage hl hwf hstage,
      outside_of_stage hstage⟩
  apply wp_mono (wp_commit hready hl hwf)
  · intro res b' ⟨d, hb', hw⟩
    rw [hb']
    exact ⟨hmono d hw.evolves, trivial⟩
  · exact fun b' h => hmono _ h.1

end BootJournal

namespace BootUpdate

variable {b : Board} {data : List Byte} {next : BootUpdateJournal}

/-- The record that a program is about to save is backed, and beyond the current one. -/
structure Savable (data : List Byte) (b : Board) (next : BootUpdateJournal) : Prop where
  current : Backed data b.ram.update.current b.mem
  saved : Backed data next b.mem
  advance : b.ram.update.current.state = BootUpdateState.programming.code →
    next.state = BootUpdateState.programming.code →
    b.ram.update.current.committedSize.toNat < next.committedSize.toNat
  completes : next.committedSize = next.expectedSize →
    b.ram.update.current.committedSize = b.ram.update.current.expectedSize ∨
      next.state = BootUpdateState.transferComplete.code

theorem issues_save_swaps {j : BootUpdateJournal} (hj : Current b.mem j) :
    Issues (Swaps b.mem j (BootJournal.completed (j.sequence + 1) next)) (save next)
      (fun ok b' => ok = true → Logged b next b' ∧ b'.commits = b.commits + 1) b := by
  have hissues : Issues (Swaps b.mem j (BootJournal.completed (j.sequence + 1) next)) (save next)
      (fun _ _ => True) b := by
    unfold save
    rw [Issues.bind_getRam]
    refine .ite (fun _ => .pure trivial) fun _ => ?_
    apply (BootJournal.issues_commit_swaps hj).bind
    intro res b' _
    cases res with
    | none =>
      rw [Issues.bind_setUpdate]
      exact .pure trivial
    | some n =>
      rw [Issues.bind_setUpdate]
      exact .pure trivial
  apply (hissues.and_ensures (ensures_save.and (commits_save b))).mono
  intro ok b' ⟨_, hlogged, hcommits⟩ hok
  exact ⟨hlogged hok, hcommits hok⟩

theorem checked_save (h : InStep b) (hs : Savable data b next) :
    Issues (Checked data) (save next) (fun ok b' => ok = true →
      Logged b next b' ∧ b'.commits = b.commits + 1) b := by
  apply (issues_save_swaps h.current).weaken
  intro c m m' hswaps
  exact .of_swaps hswaps hs.current (hs.saved.completed _) hs.advance hs.completes

end BootUpdate

/-! ## The flash -/

namespace BootFlash

variable {b : Board} {received : List Byte} {j : BootUpdateJournal} {address size : Nat}
  {data : Nat → Byte}

/-- A range below the journal that has no committed byte in it. -/
def Spared (j : BootUpdateJournal) (address size : Nat) : Prop :=
  j.state = BootUpdateState.programming.code → ∀ t : Slot, j.targetSlot = t.code →
    ∀ i, i < j.committedSize.toNat → t.base + i < address ∨ address + size ≤ t.base + i

/-- How a write to a slot ends. -/
structure Wrote (address size : Nat) (b b' : Board) : Prop where
  board : b' = b.setDev b'.dev
  outside : SameOutside address size b.mem b'.mem
  commits : b'.commits = b.commits

theorem checked_erase (hj : Current b.mem j) (hbacked : Backed received j b.mem)
    (hspared : Spared j address size) :
    Issues (Checked received) (erase address size) (fun _ => Wrote address size b) b := by
  have hissues := @issues_erase (Checked received) b address size fun n hvalid =>
    .of_slot hj hbacked (.refl _ _ _) (sameOutside_effect (.erase address size) n _)
      (lt_journal_of_valid hvalid).1 hspared
  apply (hissues.and_ensures (noCommit_erase b)).mono
  intro ok b' ⟨⟨d, hb', hout⟩, hcommits⟩
  rw [hb'] at hcommits ⊢
  exact ⟨rfl, hout, hcommits⟩

theorem checked_program (hj : Current b.mem j) (hbacked : Backed received j b.mem)
    (hspared : Spared j address size) :
    Issues (Checked received) (program address data size) (fun ok b' => Wrote address size b b' ∧
      (ok = true → b'.mem = place address size data b.mem)) b := by
  have hissues := @issues_program (Checked received) b address size data
    fun m n offset phrase hm hvalid hoffset => .of_slot hj hbacked hm
      (hm.trans ((sameOutside_effect (.program (address + offset) flashPhraseSize phrase) n m).mono
        (Nat.le_add_right _ _) (show address + offset + flashPhraseSize ≤ _ by omega)))
      (lt_journal_of_valid hvalid).1 hspared
  apply (hissues.and_ensures (ensures_program.and (noCommit_program b))).mono
  intro ok b' ⟨⟨d, hb', hout⟩, ⟨d', hb'', hplaced⟩, hcommits⟩
  have hd : d' = d := congrArg Board.dev (hb''.symm.trans hb')
  rw [hb'] at hcommits ⊢
  rw [hd] at hplaced
  exact ⟨⟨rfl, hout, hcommits⟩, hplaced⟩

end BootFlash

namespace BootProgramming

open BootFlash (Wrote Spared)

variable {b b' : Board} {t : Slot} {received : List Byte} {start n p : Nat}

/-! ## What a download has of its bytes -/

/-- The first `n` bytes are in the slot, but for the header. -/
def Holds (t : Slot) (received : List Byte) (n : Nat) (m : Nat → Byte) : Prop :=
  ∀ i, i < n → i < headerOffset → received[i]? = some (m (t.base + i))

/-- The bytes received are in the slot or in the buffer. -/
structure Carries (t : Slot) (received : List Byte) (b : Board) : Prop where
  target : b.ram.programming.targetSlot = some t
  address : b.ram.programming.targetAddress = t.base
  size : b.ram.programming.targetSize = slotSize
  active : b.ram.programming.downloadActive = true
  programmed : b.ram.programming.programmedSize = received.length / 8 * 8
  buffered : b.ram.programming.bufferedSize = received.length % 8
  buffer : ∀ i, i < received.length % 8 →
    received[received.length / 8 * 8 + i]? = some (b.ram.programming.transferBuffer i)
  holds : Holds t received (received.length / 8 * 8) b.mem

/-- The journal counts the checkpoints among the first `n` bytes of a transaction that began when
    `start` commits had been made. -/
structure Counts (t : Slot) (start n : Nat) (b : Board) : Prop where
  inStep : BootUpdate.InStep b
  state : b.ram.update.current.state = BootUpdateState.programming.code
  target : b.ram.update.current.targetSlot = t.code
  expected : b.ram.update.current.expectedSize.toNat = slotSize
  committed : b.ram.update.current.committedSize.toNat = passed n
  commits : b.commits = start + 4 + passed n / BootJournal.checkpoint

theorem passed_le (n : Nat) : passed n ≤ n / 8 * 8 := by
  have hdiv := Nat.div_mul_le_self (n / 8 * 8) BootJournal.checkpoint
  unfold passed BootUpdate.durableSize
  dsimp only
  split
  · exact Nat.le_trans (Nat.sub_le _ _) hdiv
  · exact hdiv

theorem passed_lt (hn : n ≤ slotSize) : passed n < headerOffset := by
  have hss : slotSize = 229376 := rfl
  have hcp : BootJournal.checkpoint = 32768 := rfl
  have hoff : headerOffset = 225280 := rfl
  unfold passed
  rw [BootUpdate.durableSize_slot (by omega), hcp]
  split <;> omega

theorem passed_dvd (n : Nat) : BootJournal.checkpoint ∣ passed n := by
  have hdvd := Nat.dvd_mul_left BootJournal.checkpoint (n / 8 * 8 / BootJournal.checkpoint)
  unfold passed BootUpdate.durableSize
  dsimp only
  split
  · exact Nat.dvd_sub hdvd (Nat.dvd_refl _)
  · exact hdvd

theorem Holds.append {more : List Byte} {m : Nat → Byte} (h : Holds t received n m) :
    Holds t (received ++ more) n m := by
  intro i hi hheader
  have hbyte := h i hi hheader
  have hlt : i < received.length := by
    by_contra hge
    rw [List.getElem?_eq_none (Nat.not_lt.1 hge)] at hbyte
    cases hbyte
  rw [List.getElem?_append_left hlt]
  exact hbyte

theorem Counts.spared (h : Counts t start n b) {size : Nat} (hp : n / 8 * 8 ≤ p) :
    Spared b.ram.update.current (t.base + p) size := by
  intro _ s hs i hi
  have hcode : s = t := Slot.code_injective (hs.symm.trans h.target)
  have hle := passed_le n
  rw [h.committed] at hi
  rw [hcode]
  left
  omega

/-- The record of a checkpoint is backed once its bytes are in the slot. -/
theorem backed_of_passed {j : BootUpdateJournal} {m : Nat → Byte} (ht : j.targetSlot = t.code)
    (hexpected : j.expectedSize.toNat = slotSize) (hcommitted : j.committedSize.toNat = passed n)
    (hn : n ≤ slotSize) (hholds : Holds t received (n / 8 * 8) m) : Backed received j m := by
  have hle := passed_le n
  have hlt := passed_lt hn
  have hheader := t.header_eq
  have hoff : headerOffset = 225280 := rfl
  have hss : slotSize = 229376 := rfl
  constructor
  · intro _
    rw [hcommitted]
    exact passed_dvd n
  · intro _
    refine ⟨t, ht, by omega, fun i hi => ?_⟩
    rw [hcommitted] at hi
    exact hholds i (by omega) (by omega)
  · intro heq
    have hsize : passed n = slotSize := by
      rw [← hcommitted, heq, hexpected]
    omega

theorem Counts.backed (h : Counts t start n b) (hn : n ≤ slotSize)
    (hholds : Holds t received (n / 8 * 8) b.mem) : Backed received b.ram.update.current b.mem :=
  backed_of_passed h.target h.expected h.committed hn hholds

/-! ## A block -/

/-- What the bytes of a block leave alone. -/
structure Kept (b b' : Board) : Prop where
  update : b'.ram.update = b.ram.update
  commits : b'.commits = b.commits
  journal : ∀ a, journalCopy0Address ≤ a → a < metadataSlotACopy0Address → b'.mem a = b.mem a

theorem Kept.trans {b'' : Board} (h : Kept b b') (h' : Kept b' b'') : Kept b b'' where
  update := h'.update.trans h.update
  commits := h'.commits.trans h.commits
  journal a ha ha' := (h'.journal a ha ha').trans (h.journal a ha ha')

theorem Counts.kept (h : Counts t start n b) (hk : Kept b b') : Counts t start n b' where
  inStep := h.inStep.congr hk.update hk.journal
  state := by rw [hk.update]; exact h.state
  target := by rw [hk.update]; exact h.target
  expected := by rw [hk.update]; exact h.expected
  committed := by rw [hk.update]; exact h.committed
  commits := by rw [hk.commits]; exact h.commits

/-- A phrase has been flushed, or has failed. -/
structure Flushes (t : Slot) (received : List Byte) (p : Nat) (b b' : Board) (ok : Bool) : Prop where
  kept : Kept b b'
  counter : b'.ram.programming.receivedSize = b.ram.programming.receivedSize
  before : Holds t received p b'.mem
  after : ok = true → Holds t received (p + 8) b'.mem ∧ b'.ram.programming =
    { phraseFlushed b.ram.programming with stagedHeader := b'.ram.programming.stagedHeader }

theorem checked_flushPhrase (hc : Counts t start n b) (hn : n ≤ slotSize) (hp : n / 8 * 8 ≤ p)
    (htarget : b.ram.programming.targetSlot = some t)
    (haddress : b.ram.programming.targetAddress = t.base)
    (hprogrammed : b.ram.programming.programmedSize = p)
    (hbuffer : ∀ i, i < 8 → received[p + i]? = some (b.ram.programming.transferBuffer i))
    (hholds : Holds t received p b.mem) :
    Issues (Checked received) flushPhrase (fun ok b' => Flushes t received p b b' ok) b := by
  have hoff : headerOffset = 225280 := rfl
  have hphrase : flashPhraseSize = 8 := rfl
  have hheader := t.header_eq
  have hend := t.header_lt_journal
  have hfail : Flushes t received p b b false :=
    ⟨⟨rfl, rfl, fun _ _ _ => rfl⟩, rfl, hholds, fun h => by cases h⟩
  have hbacked : Backed received b.ram.update.current b.mem :=
    hc.backed hn fun i hi hlow => hholds i (by omega) hlow
  unfold flushPhrase
  rw [Issues.bind_getRam]
  dsimp only
  rw [htarget, haddress, hprogrammed, show BootSlot.getHeaderAddress (some t) = t.header from rfl]
  refine .ite (fun _ => .pure hfail) fun hrange => .ite (fun hwindow => ?_) fun _ => ?_
  · -- a phrase of the header is staged
    rw [Issues.bind_setProgramming]
    refine .pure ⟨⟨rfl, rfl, fun _ _ _ => rfl⟩, rfl, hholds, fun _ => ⟨?_, rfl⟩⟩
    intro i hi hlow
    exact hholds i (by omega) hlow
  refine .ite (fun _ => .pure hfail) fun _ => ?_
  have hin : t.base + p + flashPhraseSize ≤ t.base + slotSize := by
    simp only [Bool.or_eq_true, not_or, Bool.not_eq_true', Bool.not_eq_false] at hrange
    exact (BootFlash.containsRange_iff.1 hrange.1).2.2
  apply (BootFlash.checked_program hc.inStep.current hbacked (hc.spared hp)).bind
  intro ok b₁ ⟨hw, hplaced⟩
  have hram₁ : b₁.ram = b.ram := by rw [hw.board]; rfl
  have hkept₁ : Kept b b₁ := by
    refine ⟨by rw [hram₁], hw.commits, fun a ha _ => ?_⟩
    exact hw.outside a (.inr (by omega))
  have hbefore₁ : Holds t received p b₁.mem := by
    intro i hi hlow
    rw [hw.outside _ (.inl (by omega))]
    exact hholds i hi hlow
  have hcounter₁ : b₁.ram.programming.receivedSize = b.ram.programming.receivedSize := by rw [hram₁]
  refine .ite (fun _ => .pure ⟨hkept₁, hcounter₁, hbefore₁, fun h => by cases h⟩) fun hok => ?_
  have hmem₁ := hplaced (by simpa using hok)
  rw [Issues.bind_setProgramming]
  refine .pure ⟨⟨hkept₁.update, hkept₁.commits, hkept₁.journal⟩, hcounter₁, hbefore₁,
    fun _ => ⟨?_, ?_⟩⟩
  · intro i hi hlow
    by_cases hold : i < p
    · exact hbefore₁ i hold hlow
    · -- the byte has just been programmed and read back
      have hnew : b₁.mem (t.base + i) = b.ram.programming.transferBuffer (i - p) := by
        rw [hmem₁, show t.base + i = t.base + p + (i - p) by omega, place_inside (by omega)]
      have hbyte := hbuffer (i - p) (by omega)
      rw [show p + (i - p) = i by omega, ← hnew] at hbyte
      exact hbyte
  · rw [hram₁]

/-- The byte after those received goes into the buffer. -/
theorem Carries.buffer_took {byte : Byte} {all : List Byte} (h : Carries t received b)
    (hpre : received ++ [byte] <+: all) :
    ∀ i, i < received.length % 8 + 1 → all[received.length / 8 * 8 + i]? =
      some ((took b byte).ram.programming.transferBuffer i) := by
  intro i hi
  obtain ⟨rest, hrest⟩ := hpre
  have hlen : (received ++ [byte]).length = received.length + 1 := by simp
  rw [← hrest, List.getElem?_append_left (by omega)]
  show _ = some (Function.update b.ram.programming.transferBuffer b.ram.programming.bufferedSize
    byte i)
  rw [h.buffered]
  by_cases hlast : i = received.length % 8
  · rw [hlast, Function.update_self,
      show received.length / 8 * 8 + received.length % 8 = received.length by omega,
      List.getElem?_concat_length]
  · rw [Function.update_of_ne hlast, List.getElem?_append_left (by omega)]
    exact h.buffer i (by omega)

/-- The bytes of a block, as far as they are taken. -/
theorem checked_transferLoop {bytes all : List Byte} (h : Carries t received b)
    (hc : Counts t start n b) (hn : n ≤ slotSize) (hreceived : n ≤ received.length)
    (hall : received ++ bytes = all) :
    Issues (Checked all) (transferLoop bytes) (fun ok b' => Kept b b' ∧
      b'.ram.programming.receivedSize = b.ram.programming.receivedSize ∧
      Holds t all (n / 8 * 8) b'.mem ∧ (ok = true → Carries t all b')) b := by
  -- the bytes that are left, from wherever the loop stands
  induction bytes generalizing b received with
  | nil =>
    rw [List.append_nil] at hall
    rw [← hall]
    refine .pure ⟨⟨rfl, rfl, fun _ _ _ => rfl⟩, rfl, fun i hi hlow => ?_, fun _ => h⟩
    exact h.holds i (by omega) hlow
  | cons byte bytes ih =>
    have hlen : (received ++ [byte]).length = received.length + 1 := by simp
    have hall' : received ++ [byte] ++ bytes = all := by simpa using hall
    have hbuffer := h.buffer_took ⟨bytes, hall'⟩
    have hholds : Holds t all (received.length / 8 * 8) b.mem := hall ▸ h.holds.append
    have hkept : Kept b (took b byte) := ⟨rfl, rfl, fun _ _ _ => rfl⟩
    have hc₁ := hc.kept hkept
    unfold transferLoop
    rw [Issues.bind_setProgramming, Issues.bind_getRam]
    refine .ite (fun hfull => ?_) fun hroom => ?_
    · replace hfull : b.ram.programming.bufferedSize + 1 = 8 := hfull
      rw [h.buffered] at hfull
      have hflush := checked_flushPhrase (b := took b byte) (p := received.length / 8 * 8) hc₁ hn
        (by omega) h.target h.address h.programmed (fun i hi => hbuffer i (by omega)) hholds
      apply hflush.bind
      intro ok b₁ hf
      refine .ite (fun _ => .pure ⟨hkept.trans hf.kept, hf.counter, ?_, fun h => by cases h⟩)
        fun hok => ?_
      · intro i hi hlow
        exact hf.before i (by omega) hlow
      obtain ⟨hafter, hcontext⟩ := hf.after (by simpa using hok)
      have h₁ : Carries t (received ++ [byte]) b₁ := by
        refine ⟨?_, ?_, ?_, ?_, ?_, ?_, fun i hi => ?_, fun i hi hlow => ?_⟩
        · rw [hcontext]
          exact h.target
        · rw [hcontext]
          exact h.address
        · rw [hcontext]
          exact h.size
        · rw [hcontext]
          exact h.active
        · rw [hcontext, hlen]
          show b.ram.programming.programmedSize + 8 = _
          rw [h.programmed]
          omega
        · rw [hcontext, hlen]
          show 0 = _
          omega
        · rw [hlen] at hi
          omega
        · rw [hlen] at hi
          have hbyte := hafter i (by omega) hlow
          rwa [← hall', List.getElem?_append_left (by omega)] at hbyte
      apply (ih h₁ (hc.kept (hkept.trans hf.kept)) (by omega) hall').mono
      rintro ok' b₂ ⟨hk₂, hreceived₂, hholds₂, hcarries₂⟩
      exact ⟨(hkept.trans hf.kept).trans hk₂, hreceived₂.trans hf.counter, hholds₂, hcarries₂⟩
    · replace hroom : ¬ b.ram.programming.bufferedSize + 1 = 8 := hroom
      rw [h.buffered] at hroom
      have h₁ : Carries t (received ++ [byte]) (took b byte) := by
        refine ⟨h.target, h.address, h.size, h.active, ?_, ?_, fun i hi => ?_, fun i hi hlow => ?_⟩
        · rw [hlen]
          show b.ram.programming.programmedSize = _
          rw [h.programmed]
          omega
        · rw [hlen]
          show b.ram.programming.bufferedSize + 1 = _
          rw [h.buffered]
          omega
        · rw [hlen] at hi ⊢
          have hbyte := hbuffer i (by omega)
          rw [show (received.length + 1) / 8 = received.length / 8 by omega]
          rwa [← hall', List.getElem?_append_left (by omega)] at hbyte
        · rw [hlen] at hi
          rw [List.getElem?_append_left (by omega)]
          exact h.holds i (by omega) hlow
      apply (ih h₁ hc₁ (by omega) hall').mono
      rintro ok' b₂ ⟨hk₂, hreceived₂, hholds₂, hcarries₂⟩
      exact ⟨hkept.trans hk₂, hreceived₂, hholds₂, hcarries₂⟩

/-- What the context and the journal have of a download. -/
structure Receives (t : Slot) (received : List Byte) (start : Nat) (b : Board) : Prop where
  carries : Carries t received b
  counts : Counts t start received.length b
  counter : b.ram.programming.receivedSize = received.length
  fit : received.length ≤ slotSize

/-- The checkpoint after a block of `len` bytes. -/
theorem checked_setProgress {len : Nat} {sequence : Byte} (hc : Counts t start n b)
    (hprogrammed : b.ram.programming.programmedSize = (n + len) / 8 * 8) (hle : n + len ≤ slotSize)
    (hholds : Holds t received ((n + len) / 8 * 8) b.mem) :
    Issues (Checked received) (BootUpdate.setProgress b.ram.programming.programmedSize sequence)
      (fun ok b' => ok = true → JournalOnly b.mem b'.mem ∧
        b'.ram.programming = b.ram.programming ∧ (len ≤ 128 → Counts t start (n + len) b')) b := by
  have hcp : BootJournal.checkpoint = 32768 := rfl
  have hstep : len ≤ 128 → passed (n + len) = passed n ∨
      passed (n + len) = passed n + BootJournal.checkpoint :=
    fun hlen => BootUpdate.durableSize_step hlen hle
  unfold BootUpdate.setProgress
  rw [Issues.bind_getRam]
  dsimp only
  rw [hc.expected, hc.committed, hprogrammed,
    show BootUpdate.durableSize ((n + len) / 8 * 8) slotSize = passed (n + len) from rfl]
  refine .ite (fun _ => .pure fun h => by cases h) fun _ => .ite (fun hsame => .pure fun _ => ?_)
    fun hmore => ?_
  · -- no checkpoint has been passed
    refine ⟨.refl _, rfl, fun hlen => ?_⟩
    have heq : passed (n + len) = passed n := by
      have hcases := hstep hlen
      omega
    refine ⟨hc.inStep, hc.state, hc.target, hc.expected, ?_, ?_⟩
    · rw [heq]
      exact hc.committed
    · rw [heq]
      exact hc.commits
  have hlt := passed_lt hle
  have hoff : headerOffset = 225280 := rfl
  have hcommitted : (BitVec.ofNat 32 (passed (n + len)) : Word).toNat = passed (n + len) := by
    rw [BitVec.toNat_ofNat]
    exact Nat.mod_eq_of_lt (by omega)
  have hmono : n / 8 * 8 ≤ (n + len) / 8 * 8 :=
    Nat.mul_le_mul_right 8 (Nat.div_le_div_right (Nat.le_add_right n len))
  -- the phrases that the new record covers have been programmed
  have hsavable : BootUpdate.Savable received b { b.ram.update.current with
      committedSize := BitVec.ofNat 32 (passed (n + len))
      lastBlockSequence := sequence.setWidth 32 } := by
    constructor
    · exact hc.backed (by omega) fun i hi hlow => hholds i (by omega) hlow
    · exact backed_of_passed hc.target hc.expected hcommitted hle hholds
    · intro _ _
      rw [hcommitted, hc.committed]
      omega
    · intro hall
      have hsize := congrArg BitVec.toNat hall
      rw [hcommitted, hc.expected] at hsize
      have hss : slotSize = 229376 := rfl
      omega
  apply (BootUpdate.checked_save hc.inStep hsavable).mono
  intro ok b' h hok
  obtain ⟨hl, hcommits⟩ := h hok
  obtain ⟨j, -, hcur⟩ := hl.record
  refine ⟨hl.only, by rw [hl.ram], fun hlen => ?_⟩
  refine ⟨hl.inStep, ?_, ?_, ?_, ?_, ?_⟩
  · rw [hcur]
    exact hc.state
  · rw [hcur]
    exact hc.target
  · rw [hcur]
    exact hc.expected
  · rw [hcur]
    exact hcommitted
  · have hcases := hstep hlen
    have heq : passed (n + len) = passed n + BootJournal.checkpoint := by omega
    have hdiv : passed (n + len) / BootJournal.checkpoint =
        passed n / BootJournal.checkpoint + 1 := by
      rw [heq]
      exact Nat.add_div_right _ (by decide)
    rw [hcommits, hc.commits, hdiv, Nat.add_assoc]

end BootProgramming

theorem BootUpdate.checked_abort {b : Board} {data : List Byte} {reason : BootUpdateResult}
    (h : InStep b) (hs : Backed data b.ram.update.current b.mem) :
    Issues (Checked data) (abort reason) (fun _ _ => True) b := by
  have hst : BootUpdateState.aborted.code ≠ BootUpdateState.programming.code := by decide
  have hlate : BootUpdateState.transferComplete.code ≤ BootUpdateState.aborted.code := by decide
  unfold abort
  rw [Issues.bind_setUpdate, Issues.bind_getRam]
  refine .ite (fun _ => .pure trivial) fun _ => ?_
  have hin : InStep { b with ram := { b.ram with update := { b.ram.update with
      targetRevalidated := false } } } := ⟨h.can, h.current⟩
  have hsavable : Savable data { b with ram := { b.ram with update := { b.ram.update with
      targetRevalidated := false } } } { b.ram.update.current with
      state := BootUpdateState.aborted.code
      lastResult := reason.code } :=
    ⟨hs, .of_state hst fun _ => hlate, fun _ h => absurd h hst, .inl⟩
  exact (checked_save hin hsavable).mono fun _ _ _ => trivial

namespace BootProgramming

variable {b : Board} {t : Slot} {received data : List Byte} {start : Nat}

/-- Service 36. -/
theorem checked_transfer {sequence : Byte} (h : Receives t received start b) :
    Issues (Checked (received ++ data)) (transfer sequence data) (fun r b' => r = 0 →
      data.length ≤ 128 → Receives t (received ++ data) start b') b := by
  have hrefuse : ∀ {r : Byte} {c : Board}, ¬ r = 0 → Issues (Checked (received ++ data))
      (pure r) (fun r b' => r = 0 → data.length ≤ 128 → Receives t (received ++ data) start b') c :=
    fun hr => .pure fun h0 => absurd h0 hr
  unfold transfer
  rw [Issues.bind_getRam]
  dsimp only
  rw [h.carries.size, h.counter]
  -- what is refused before the loop issues no command
  refine .ite hrefuse fun _ => .ite (fun _ => hrefuse (by decide)) fun _ => ?_
  refine .ite (fun _ => hrefuse (by decide)) fun _ => .ite (fun _ => hrefuse (by decide)) fun _ => ?_
  refine .ite (fun _ => hrefuse (by decide)) fun hroom => ?_
  have hfit : received.length + data.length ≤ slotSize := by omega
  have hlen : (received ++ data).length = received.length + data.length := List.length_append
  apply (checked_transferLoop h.carries h.counts h.fit (le_refl _) rfl).bind
  intro ok b₁ ⟨hk₁, hcounter₁, hholds₁, hcarries₁⟩
  have hc₁ := h.counts.kept hk₁
  refine .ite (fun _ => ?_) fun hok => ?_
  · -- the transfer is given up
    apply (BootUpdate.checked_abort hc₁.inStep (hc₁.backed h.fit hholds₁)).bind
    intro ok' b₂ _
    unfold abort
    rw [Issues.bind_setProgramming]
    exact hrefuse (by decide)
  -- every byte is buffered or programmed, and the progress is saved
  have hall := hcarries₁ (by simpa using hok)
  rw [Issues.bind_setProgramming, Issues.bind_getRam]
  obtain ⟨b₂, hb₂⟩ : ∃ b₂, b₂ = { b₁ with ram := { b₁.ram with programming := { b₁.ram.programming with
    receivedSize := b₁.ram.programming.receivedSize + data.length } } } := ⟨_, rfl⟩
  have hc₂ : Counts t start received.length b₂ := by
    rw [hb₂]
    exact hc₁.kept ⟨rfl, rfl, fun _ _ _ => rfl⟩
  have hprogrammed₂ : b₂.ram.programming.programmedSize =
      (received.length + data.length) / 8 * 8 := by
    rw [hb₂, ← hlen]
    exact hall.programmed
  have hholds₂ : Holds t (received ++ data) ((received.length + data.length) / 8 * 8) b₂.mem := by
    rw [hb₂, ← hlen]
    exact hall.holds
  rw [← hb₂]
  apply (checked_setProgress hc₂ hprogrammed₂ hfit hholds₂).bind
  intro ok' b₃ h₃
  refine .ite (fun _ => ?_) fun hok' => ?_
  · unfold abort
    rw [Issues.bind_setProgramming]
    exact hrefuse (by decide)
  obtain ⟨honly, hprogramming, hcounts⟩ := h₃ (by simpa using hok')
  rw [Issues.bind_setProgramming]
  refine .pure fun _ hshort => ?_
  have hc₃ := hcounts hshort
  have hheader := t.header_lt_journal
  have hcontext : b₃.ram.programming = { b₁.ram.programming with
      receivedSize := b₁.ram.programming.receivedSize + data.length } := by
    rw [hprogramming, hb₂]
  constructor
  · constructor
    · show b₃.ram.programming.targetSlot = _
      rw [hcontext]
      exact hall.target
    · show b₃.ram.programming.targetAddress = _
      rw [hcontext]
      exact hall.address
    · show b₃.ram.programming.targetSize = _
      rw [hcontext]
      exact hall.size
    · show b₃.ram.programming.downloadActive = _
      rw [hcontext]
      exact hall.active
    · show b₃.ram.programming.programmedSize = _
      rw [hcontext]
      exact hall.programmed
    · show b₃.ram.programming.bufferedSize = _
      rw [hcontext]
      exact hall.buffered
    · intro i hi
      show _ = some (b₃.ram.programming.transferBuffer i)
      rw [hcontext]
      exact hall.buffer i hi
    · intro i hi hlow
      have hoff : headerOffset = 225280 := rfl
      have hss : slotSize = 229376 := rfl
      have hslot := t.header_eq
      -- saving the progress writes outside the slot
      show _ = some (b₃.mem (t.base + i))
      rw [honly _ (.inl (by omega)), hb₂]
      exact hall.holds i hi hlow
  · rw [hlen]
    exact hc₃.kept ⟨rfl, rfl, fun _ _ _ => rfl⟩
  · show b₃.ram.programming.receivedSize = _
    rw [hcontext, hlen]
    show b₁.ram.programming.receivedSize + data.length = _
    rw [hcounter₁, h.counter]
  · rw [hlen]
    exact hfit

end BootProgramming

/-! ## The services around the transfer -/

namespace Backed

variable {data : List Byte} {j : BootUpdateJournal} {m : Nat → Byte}

/-- From TRANSFER_COMPLETE on everything is said. -/
theorem of_late (h : BootUpdateState.transferComplete.code ≤ j.state) : Backed data j m := by
  apply of_state
  · intro hst
    rw [hst] at h
    exact absurd h (by decide)
  · exact fun _ => h

end Backed

namespace BootUpdate

variable {b : Board} {data : List Byte}

theorem checked_setState {q : BootUpdateState} (h : InStep b)
    (hs : Savable data b { b.ram.update.current with state := q.code }) :
    Issues (Checked data) (setState q) (fun ok b' => ok = true →
      Logged b { b.ram.update.current with state := q.code } b' ∧ b'.commits = b.commits + 1) b := by
  unfold setState
  rw [Issues.bind_getRam]
  exact .ite (fun _ => .pure fun h => by cases h) fun _ => checked_save h hs

/-- A record that is saved from TRANSFER_COMPLETE on. -/
theorem Savable.of_late {next : BootUpdateJournal}
    (h : BootUpdateState.transferComplete.code ≤ b.ram.update.current.state)
    (hnext : BootUpdateState.transferComplete.code ≤ next.state)
    (hcommitted : next.committedSize = b.ram.update.current.committedSize)
    (hexpected : next.expectedSize = b.ram.update.current.expectedSize) : Savable data b next where
  current := .of_late h
  saved := .of_late hnext
  advance _ hst := by
    rw [hst] at hnext
    exact absurd hnext (by decide)
  completes hall := by
    rw [hcommitted, hexpected] at hall
    exact .inl hall

end BootUpdate

namespace BootProgramming

open BootFlash (Wrote Spared)

variable {b b' : Board} {t : Slot} {received data : List Byte} {start : Nat} {address size : Nat}

/-- The target has been erased in a transaction that began when `start` commits had been made. -/
structure Awaits (t : Slot) (start : Nat) (b : Board) : Prop where
  target : b.ram.programming.targetSlot = some t
  address : b.ram.programming.targetAddress = t.base
  size : b.ram.programming.targetSize = slotSize
  inactive : b.ram.programming.downloadActive = false
  incomplete : b.ram.programming.transferComplete = false
  received : b.ram.programming.receivedSize = 0
  programmed : b.ram.programming.programmedSize = 0
  buffered : b.ram.programming.bufferedSize = 0
  inStep : BootUpdate.InStep b
  state : b.ram.update.current.state = BootUpdateState.downloadReady.code
  targetCode : b.ram.update.current.targetSlot = t.code
  expected : b.ram.update.current.expectedSize.toNat = slotSize
  committed : b.ram.update.current.committedSize = 0
  commits : b.commits = start + 3

theorem Awaits.of_prepared (h : Prepared t b) (hcommits : b.commits = start + 3) :
    Awaits t start b where
  target := h.target
  address := h.address
  size := h.size
  inactive := h.inactive
  incomplete := h.incomplete
  received := h.received
  programmed := h.programmed
  buffered := h.buffered
  inStep := h.inStep
  state := h.state
  targetCode := h.targetCode
  expected := h.expected
  committed := h.committed
  commits := hcommits

theorem Awaits.backed (h : Awaits t start b) : Backed received b.ram.update.current b.mem := by
  apply Backed.of_state
  · rw [h.state]
    decide
  · intro heq
    have hsize := congrArg BitVec.toNat heq
    rw [h.expected, h.committed] at hsize
    exact absurd hsize (by decide)

/-- Service 34. -/
theorem checked_download (h : Awaits t start b) : Issues (Checked []) (download address size)
    (fun r b' => r = 0 → Receives t [] start b') b := by
  have hrefuse : ∀ {r : Byte} {c : Board}, ¬ r = 0 → Issues (Checked [])
      (pure r) (fun r b' => r = 0 → Receives t [] start b') c := fun hr => .pure fun h0 => absurd h0 hr
  have hcommitted : b.ram.update.current.committedSize.toNat = passed 0 := by
    rw [h.committed]
    decide
  have hholds : ∀ m, Holds t [] (0 / 8 * 8) m := fun _ i hi => absurd hi (Nat.not_lt_zero i)
  -- no byte has arrived, and the record covers none
  have hsavable : BootUpdate.Savable [] b { b.ram.update.current with
      state := BootUpdateState.programming.code } := by
    constructor
    · exact h.backed
    · exact backed_of_passed h.targetCode h.expected hcommitted (by decide) (hholds _)
    · intro hst _
      rw [h.state] at hst
      exact absurd hst (by decide)
    · exact .inl
  unfold download
  rw [Issues.bind_getRam]
  dsimp only
  refine .ite hrefuse fun _ => .ite (fun _ => hrefuse (by decide)) fun _ => ?_
  refine .ite (fun _ => hrefuse (by decide)) fun _ => ?_
  apply (BootUpdate.checked_setState h.inStep hsavable).bind
  intro ok b₁ h₁
  refine .ite (fun _ => hrefuse (by decide)) fun hok => ?_
  obtain ⟨hl, hcommits⟩ := h₁ (by simpa using hok)
  obtain ⟨j, -, hcur⟩ := hl.record
  have hcontext : b₁.ram.programming = b.ram.programming := by rw [hl.ram]
  rw [Issues.bind_setProgramming]
  refine .pure fun _ => ⟨⟨?_, ?_, ?_, rfl, ?_, ?_, fun i hi => absurd hi (Nat.not_lt_zero i),
    hholds _⟩, ⟨⟨hl.inStep.can, hl.inStep.current⟩, ?_, ?_, ?_, ?_, ?_⟩, ?_, Nat.zero_le _⟩
  · dsimp only
    rw [hcontext]
    exact h.target
  · dsimp only
    rw [hcontext]
    exact h.address
  · dsimp only
    rw [hcontext]
    exact h.size
  · dsimp only
    rw [hcontext]
    exact h.programmed
  · dsimp only
    rw [hcontext]
    exact h.buffered
  · dsimp only
    rw [hcur]
    rfl
  · dsimp only
    rw [hcur]
    exact h.targetCode
  · dsimp only
    rw [hcur]
    exact h.expected
  · dsimp only
    rw [hcur]
    exact hcommitted
  · show b₁.commits = _
    rw [hcommits, h.commits]
    rfl
  · dsimp only
    rw [hcontext]
    exact h.received

/-- All bytes have been received. -/
structure Arrived (t : Slot) (start : Nat) (b : Board) : Prop where
  target : b.ram.programming.targetSlot = some t
  inactive : b.ram.programming.downloadActive = false
  complete : b.ram.programming.transferComplete = true
  inStep : BootUpdate.InStep b
  state : b.ram.update.current.state = BootUpdateState.transferComplete.code
  commits : b.commits = start + 11

/-- TRANSFER_COMPLETE is committed over the last checkpoint. -/
theorem checked_markTransferComplete {header : BootImageHeader} {sequence : Byte}
    (h : Receives t received start b) : Issues (Checked received)
      (BootUpdate.markTransferComplete header sequence) (fun ok b' => ok = true →
        BootUpdate.Logged b (closed header sequence b.ram.update.current) b' ∧
          b'.commits = b.commits + 1) b := by
  have hst : BootUpdateState.transferComplete.code ≠ BootUpdateState.programming.code := by decide
  have hbacked : Backed received b.ram.update.current b.mem := h.counts.backed h.fit h.carries.holds
  have hsavable : BootUpdate.Savable received b (closed header sequence b.ram.update.current) :=
    ⟨hbacked, .of_late (BitVec.le_refl BootUpdateState.transferComplete.code),
      fun _ hno => absurd hno hst, fun _ => .inr rfl⟩
  unfold BootUpdate.markTransferComplete
  rw [Issues.bind_getRam]
  dsimp only
  exact .ite (fun _ => .pure fun hno => by cases hno) fun _ =>
    BootUpdate.checked_save h.counts.inStep hsavable

/-- Service 37. -/
theorem checked_exit (h : Receives t received start b) :
    Issues (Checked received) exit (fun r b' => r = 0 → Arrived t start b') b := by
  have hrefuse : ∀ {r : Byte} {c : Board}, ¬ r = 0 → Issues (Checked received)
      (pure r) (fun r b' => r = 0 → Arrived t start b') c := fun hr => .pure fun h0 => absurd h0 hr
  unfold exit
  rw [Issues.bind_getRam]
  dsimp only
  rw [h.carries.size, h.counter]
  refine .ite hrefuse fun _ => .ite (fun _ => hrefuse (by decide)) fun hwhole => ?_
  have hall : received.length = slotSize := by
    simp only [Bool.or_eq_true, not_or, bne_iff_ne, ne_eq, not_not] at hwhole
    exact hwhole.1.1.2
  -- six checkpoints have been counted, the last one at the end of the slot is not
  have hsix : passed received.length / BootJournal.checkpoint = 6 := by
    rw [hall]
    decide
  apply (checked_markTransferComplete h).bind
  intro ok b₁ h₁
  refine .ite (fun _ => hrefuse (by decide)) fun hok => ?_
  obtain ⟨hl, hcommits⟩ := h₁ (by simpa using hok)
  obtain ⟨j, -, hcur⟩ := hl.record
  rw [Issues.bind_setProgramming]
  refine .pure fun _ => ⟨?_, rfl, rfl, ⟨hl.inStep.can, hl.inStep.current⟩, ?_, ?_⟩
  · dsimp only
    rw [hl.ram]
    exact h.carries.target
  · dsimp only
    rw [hcur]
    rfl
  · show b₁.commits = _
    rw [hcommits, h.counts.commits, hsix]

/-- The image is being verified. -/
structure Inspects (start : Nat) (b : Board) : Prop where
  inactive : b.ram.programming.downloadActive = false
  complete : b.ram.programming.transferComplete = true
  inStep : BootUpdate.InStep b
  state : b.ram.update.current.state = BootUpdateState.verifying.code
  commits : b.commits = start + 12

theorem Inspects.late (h : Inspects start b) :
    BootUpdateState.transferComplete.code ≤ b.ram.update.current.state := by
  rw [h.state]
  decide

/-- A response in between changes nothing that counts. -/
theorem Inspects.sent (h : Inspects start b) (hdev : b'.dev = b.dev) (hram : b'.ram = b.ram) :
    Inspects start b' where
  inactive := by rw [hram]; exact h.inactive
  complete := by rw [hram]; exact h.complete
  inStep := h.inStep.congr (by rw [hram]) fun a _ _ => congrFun (congrArg Device.mem hdev) a
  state := by rw [hram]; exact h.state
  commits := by
    unfold Board.commits
    rw [hdev]
    exact h.commits

/-- The update waits for its activation. -/
structure Concluded (start : Nat) (b : Board) : Prop where
  inactive : b.ram.programming.downloadActive = false
  complete : b.ram.programming.transferComplete = true
  verified : b.ram.programming.imageVerified = true
  inStep : BootUpdate.InStep b
  state : b.ram.update.current.state = BootUpdateState.pendingActivation.code
  commits : b.commits = start + 14

theorem checked_markPending (h : BootUpdate.InStep b)
    (hst : b.ram.update.current.state = BootUpdateState.verified.code) :
    Issues (Checked received) (BootUpdate.markPending false) (fun ok b' => ok = true →
      b'.ram.programming = b.ram.programming ∧ BootUpdate.InStep b' ∧
      b'.ram.update.current.state = BootUpdateState.pendingActivation.code ∧
      b'.commits = b.commits + 1) b := by
  have hlate : BootUpdateState.transferComplete.code ≤ b.ram.update.current.state := by
    rw [hst]
    decide
  have hpending : BootUpdateState.transferComplete.code ≤
      BootUpdateState.pendingActivation.code := by decide
  have hsavable : BootUpdate.Savable received b { b.ram.update.current with
      state := BootUpdateState.pendingActivation.code
      lastResult := BootUpdateResult.success.code } := .of_late hlate hpending rfl rfl
  unfold BootUpdate.markPending
  rw [Issues.bind_getRam]
  dsimp only
  refine .ite (fun _ => .pure fun hno => by cases hno) fun _ => ?_
  apply (BootUpdate.checked_save h hsavable).bind
  intro ok b₁ h₁
  refine .ite (fun _ => .pure fun hno => by cases hno) fun hok => ?_
  obtain ⟨hl, hcommits⟩ := h₁ (by simpa using hok)
  obtain ⟨j, -, hcur⟩ := hl.record
  rw [Issues.bind_setUpdate]
  refine .pure fun _ => ⟨?_, ⟨hl.inStep.can, hl.inStep.current⟩, ?_, hcommits⟩
  · rw [hl.ram]
  · dsimp only
    rw [hcur]
    rfl

theorem checked_markVerified (h : Inspects start b) :
    Issues (Checked received) (BootUpdate.markVerified false) (fun ok b' => ok = true →
      b'.ram.programming = b.ram.programming ∧ BootUpdate.InStep b' ∧
      b'.ram.update.current.state = BootUpdateState.pendingActivation.code ∧
      b'.commits = start + 14) b := by
  have hverified : BootUpdateState.transferComplete.code ≤ BootUpdateState.verified.code := by decide
  unfold BootUpdate.markVerified
  rw [Issues.bind_getRam]
  refine .ite (fun _ => ?_) fun hno => absurd h.state hno
  apply (BootUpdate.checked_setState h.inStep (.of_late h.late hverified rfl rfl)).bind
  intro ok b₁ h₁
  refine .ite (fun _ => .pure fun hno => by cases hno) fun hok => ?_
  obtain ⟨hl, hcommits⟩ := h₁ (by simpa using hok)
  obtain ⟨j, -, hcur⟩ := hl.record
  have hst₁ : b₁.ram.update.current.state = BootUpdateState.verified.code := by
    rw [hcur]
    rfl
  apply (checked_markPending hl.inStep hst₁).mono
  intro ok' b₂ h₂ hok'
  obtain ⟨hprogramming, hin, hst, hcommits'⟩ := h₂ hok'
  refine ⟨?_, hin, hst, ?_⟩
  · rw [hprogramming, hl.ram]
  · rw [hcommits', hcommits, h.commits]

/-- What is left of service 31 FF01 once the header is in flash. -/
theorem checked_verifyPublished {c : Context} (h : Inspects start b) :
    Issues (Checked received) (verifyPublished c) (fun r b' => r = 0 → Concluded start b') b := by
  unfold verifyPublished
  rw [Issues.bind_flash, Issues.bind_setProgramming]
  obtain ⟨b₁, hb₁⟩ : ∃ b₁, b₁ = { b with ram := { b.ram with programming := { b.ram.programming with
    validationResult := (BootImage.loadInfo b.mem c.targetSlot).validationResult
    imageVerified := (BootImage.loadInfo b.mem c.targetSlot).validationResult ==
        BootImageValidationResult.valid } } } :=
    ⟨_, rfl⟩
  have hin₁ : BootUpdate.InStep b₁ := by
    rw [hb₁]
    exact ⟨h.inStep.can, h.inStep.current⟩
  have h₁ : Inspects start b₁ := by
    rw [hb₁] at hin₁ ⊢
    exact ⟨h.inactive, h.complete, hin₁, h.state, h.commits⟩
  rw [← hb₁]
  refine .ite (fun _ => ?_) fun hvalid => ?_
  · apply (BootUpdate.checked_abort hin₁ (.of_late h₁.late)).bind
    exact fun _ _ _ => .pure fun h0 => absurd h0 (by decide)
  have hverified₁ : b₁.ram.programming.imageVerified = true := by
    rw [hb₁]
    exact beq_iff_eq.2 (not_not.1 hvalid)
  apply (checked_markVerified h₁).bind
  intro ok b₂ h₂
  refine .ite (fun hok => .pure fun _ => ?_) fun _ => ?_
  · obtain ⟨hprogramming, hin, hst, hcommits⟩ := h₂ hok
    refine ⟨?_, ?_, ?_, hin, hst, hcommits⟩
    · rw [hprogramming]
      exact h₁.inactive
    · rw [hprogramming]
      exact h₁.complete
    · rw [hprogramming]
      exact hverified₁
  · rw [Issues.bind_setProgramming]
    exact .pure fun h0 => absurd h0 (by decide)

/-- The verification goes on after a write to the slot. -/
theorem Inspects.wrote (h : Inspects start b) (hw : Wrote address size b b')
    (hend : address + size ≤ journalCopy0Address) : Inspects start b' := by
  have hram : b'.ram = b.ram := by rw [hw.board]; rfl
  refine ⟨?_, ?_, ?_, ?_, ?_⟩
  · rw [hram]
    exact h.inactive
  · rw [hram]
    exact h.complete
  · apply h.inStep.congr
    · rw [hram]
    · intro a ha _
      exact hw.outside a (.inr (by omega))
  · rw [hram]
    exact h.state
  · rw [hw.commits]
    exact h.commits

theorem Inspects.spared (h : Inspects start b) :
    Spared b.ram.update.current address size := by
  intro hst
  rw [h.state] at hst
  exact absurd hst (by decide)

theorem checked_verifyPublish {c : Context} (htarget : c.targetSlot = some t)
    (h : Inspects start b) :
    Issues (Checked received) (verifyPublish c) (fun r b' => r = 0 → Concluded start b') b := by
  have hend := t.header_lt_journal
  have hhdr := t.header_eq
  have hss : slotSize = 229376 := rfl
  have hoff : headerOffset = 225280 := rfl
  have hfs : flashSectorSize = 4096 := rfl
  have hsize : BootImageHeader.size = 64 := rfl
  have hgiveUp : ∀ {c : Board}, Inspects start c → Issues (Checked received)
      (do let _ ← BootUpdate.abort .programFailed
          abort
          return (0x72 : Byte)) (fun r b' => r = 0 → Concluded start b') c := by
    intro c hc
    apply (BootUpdate.checked_abort hc.inStep (.of_late hc.late)).bind
    intro _ _ _
    unfold abort
    rw [Issues.bind_setProgramming]
    exact .pure fun h0 => absurd h0 (by decide)
  unfold verifyPublish
  rw [htarget, show BootSlot.getHeaderAddress (some t) = t.header from rfl]
  apply (BootFlash.checked_erase h.inStep.current (.of_late h.late) h.spared).bind
  intro ok b₁ hw₁
  have h₁ := h.wrote hw₁ (by omega)
  refine .ite (fun _ => hgiveUp h₁) fun _ => ?_
  apply (BootFlash.checked_program h₁.inStep.current (.of_late h₁.late) h₁.spared).bind
  intro ok b₂ ⟨hw₂, _⟩
  have h₂ := h₁.wrote hw₂ (by omega)
  refine .ite (fun _ => hgiveUp h₂) fun _ => ?_
  apply issues_transmit.bind
  intro ok b₃ ⟨hdev, hram⟩
  refine .ite (fun _ => .pure fun h0 => absurd h0 (by decide)) fun _ => ?_
  exact checked_verifyPublished (h₂.sent hdev hram)

/-- Service 31 FF01. -/
theorem checked_verify (h : Arrived t start b) :
    Issues (Checked received) verify (fun r b' => r = 0 → Concluded start b') b := by
  have hrefuse : ∀ {r : Byte} {c : Board}, ¬ r = 0 → Issues (Checked received)
      (pure r) (fun r b' => r = 0 → Concluded start b') c := fun hr => .pure fun h0 => absurd h0 hr
  have hverifying : BootUpdateState.transferComplete.code ≤ BootUpdateState.verifying.code := by
    decide
  unfold verify
  rw [Issues.bind_getRam]
  dsimp only
  refine .ite hrefuse fun _ => .ite (fun _ => hrefuse (by decide)) fun _ => ?_
  apply issues_transmit.bind
  intro ok b₁ ⟨hdev₁, hram₁⟩
  refine .ite (fun _ => hrefuse (by decide)) fun _ => ?_
  have hin₁ : BootUpdate.InStep b₁ := by
    apply h.inStep.congr
    · rw [hram₁]
    · exact fun a _ _ => congrFun (congrArg Device.mem hdev₁) a
  have hlate₁ : BootUpdateState.transferComplete.code ≤ b₁.ram.update.current.state := by
    rw [hram₁, h.state]
    exact BitVec.le_refl _
  apply (BootUpdate.checked_setState hin₁ (.of_late hlate₁ hverifying rfl rfl)).bind
  intro ok b₂ h₂
  refine .ite (fun _ => hrefuse (by decide)) fun hok => ?_
  obtain ⟨hl, hcommits⟩ := h₂ (by simpa using hok)
  obtain ⟨j, -, hcur⟩ := hl.record
  have hprogramming₂ : b₂.ram.programming = b.ram.programming := by rw [hl.ram, hram₁]
  have hst₂ : b₂.ram.update.current.state = BootUpdateState.verifying.code := by
    rw [hcur]
    rfl
  have hcommits₂ : b₂.commits = start + 12 := by
    rw [hcommits]
    unfold Board.commits
    rw [hdev₁]
    exact congrArg (· + 1) h.commits
  rw [Issues.bind_flash, Issues.bind_setProgramming]
  obtain ⟨result, hresult⟩ : ∃ result, result = (BootImage.validate b₂.mem
    b.ram.programming.targetSlot { BootImage.zeroInfo with
      header := b.ram.programming.stagedHeader }).validationResult := ⟨_, rfl⟩
  rw [← hresult]
  obtain ⟨b₃, hb₃⟩ : ∃ b₃, b₃ = { b₂ with ram := { b₂.ram with programming :=
    { b₂.ram.programming with validationResult := result } } } := ⟨_, rfl⟩
  have h₃ : Inspects start b₃ := by
    rw [hb₃]
    refine ⟨?_, ?_, ⟨hl.inStep.can, hl.inStep.current⟩, hst₂, hcommits₂⟩
    · dsimp only
      rw [hprogramming₂]
      exact h.inactive
    · dsimp only
      rw [hprogramming₂]
      exact h.complete
  rw [← hb₃]
  have hgiveUp : ∀ {r : Byte}, ¬ r = 0 → Issues (Checked received)
      (do let _ ← BootUpdate.abort .badImage
          return r) (fun r b' => r = 0 → Concluded start b') b₃ := by
    intro r hr
    apply (BootUpdate.checked_abort h₃.inStep (.of_late h₃.late)).bind
    exact fun _ _ _ => hrefuse hr
  refine .ite (fun _ => hgiveUp (by decide)) fun _ => .ite (fun _ => hgiveUp (by decide))
    fun _ => ?_
  apply issues_transmit.bind
  intro ok b₄ ⟨hdev₄, hram₄⟩
  refine .ite (fun _ => hrefuse (by decide)) fun _ => ?_
  exact checked_verifyPublish h.target (h₃.sent hdev₄ hram₄)

end BootProgramming
