import BootloaderV2.JournalAtomic
import BootloaderV2.MetadataAtomic

/-!
# Initialising a store

The first record always goes to copy 0 with sequence number 1, and copy 1 is left as it was found.
Where neither copy is valid the record is current from then on.  Where the store is ambiguous both
copies are valid, and the next selection compares the new record with the one left in copy 1.
-/

open BootConfig NorFlash CrashM TwoCopy

/-- A write that returns a record has stored it in full. -/
theorem TwoCopy.wp_writeCopy_stored {R : Type} {F : Format R} {P : Port Board Note} {b : Board}
    {k : Fin 2} {next : R} (hlimit : F.size ≤ P.limit) (hphrase : P.phrase ∣ F.size)
    (hunready : ¬ P.ready b → wp (P.erase k) (fun ok b' => ok = false ∧ b' = b) (fun _ => True) b) :
    wp (writeCopy F P k next)
      (fun res b' => ∀ r, res = some r → r = next ∧ F.valid next = true ∧
        P.Written F k next (P.dev b).mem F.size (P.dev b').mem) (fun _ => True) b := by
  have hnone : ∀ b' : Board, ∀ r, none = some r → r = next ∧ F.valid next = true ∧
      P.Written F k next (P.dev b).mem F.size (P.dev b').mem := by
    intro b' r hr
    cases hr
  by_cases hready : P.ready b
  swap
  · exact writeCopy_unready (hunready hready) (hnone b)
  by_cases hv : F.valid next = true
  swap
  · exact writeCopy_invalid (Bool.eq_false_of_not_eq_true hv) (hnone b)
  refine wp_mono (wp_writeCopy hlimit hphrase hready hv) ?_ fun _ _ => trivial
  rintro res b' ⟨d, rfl, -, hsome, -⟩ r hr
  obtain ⟨rfl, hw⟩ := hsome r hr
  refine ⟨rfl, hv, ?_⟩
  rw [P.dev_setDev]
  exact hw

/-- What copy 1 holds does not stand in the way of `first`, a record with sequence number 1: it is
    not valid, or its sequence number is one that 1 is ahead of, or it is that very record. -/
def TwoCopy.Format.Yields {R : Type} (F : Format R) (first : R) (c : Fin 2 → Nat → Byte) : Prop :=
  ∀ o, F.copy (c 1) = some o → F.sequence o = 0 ∨ 0x80000001 < F.sequence o ∨ o = first

theorem TwoCopy.Format.yields_of_empty {R : Type} {F : Format R} {first : R}
    {c : Fin 2 → Nat → Byte} (h : F.load c = .empty) : F.Yields first c := by
  intro o ho
  rw [Format.copy_of_erased (Format.copies_of_empty h).2] at ho
  cases ho

/-- The first record is current after it was written when copy 1 yields to it. -/
theorem TwoCopy.Port.Written.load_iff_yields {σ ε R : Type} {P : Port σ ε} {F : Format R} {next : R}
    {m₀ m : Nat → Byte} (hsec : F.size ≤ P.sector) (hseq : F.sequence next = 1)
    (hv : F.valid next = true) (hw : P.Written F 0 next m₀ F.size m) :
    (∃ k, F.load (P.copies m) = .valid k next) ↔ F.Yields next (P.copies m₀) := by
  rw [Format.load_first_iff (hw.sameOther hsec) hw.torn hv, hseq]
  unfold Format.Yields
  refine forall_congr' fun o => forall_congr' fun _ => ?_
  rw [sequenceNewer_one, or_assoc]

namespace BootJournal

variable {b b' : Board} {record r : BootUpdateJournal}

/-- What a successful `BootJournal_Initialize` leaves. -/
theorem wp_initializeStore_yields (hl : ∀ k o, loadLatest b.mem ≠ .valid k o) :
    wp (initializeStore record)
      (fun res b' => ∀ r, res = some r → r = completed 1 record ∧
        ((∃ k, loadLatest b'.mem = .valid k r) ↔
          recordFormat.Yields (completed 1 record) (copies b.mem))) (fun _ => True) b := by
  have hwrite : wp (writeCopy recordFormat BootJournalStorage.port 0 (completed 1 record))
      (fun res b' => ∀ r, res = some r → r = completed 1 record ∧
        ((∃ k, loadLatest b'.mem = .valid k r) ↔
          recordFormat.Yields (completed 1 record) (copies b.mem))) (fun _ => True) b := by
    refine wp_mono (wp_writeCopy_stored (P := BootJournalStorage.port) (F := recordFormat)
      (le_refl _) (by decide) fun hready =>
        BootJournalStorage.erase_unready (Bool.eq_false_of_not_eq_true hready)) ?_ fun _ h => h
    intro res b' hres r hr
    obtain ⟨rfl, hv, hw⟩ := hres r hr
    have hseq : recordFormat.sequence (completed 1 record) = 1 := rfl
    have hiff := hw.load_iff_yields recordFormat_size_le hseq hv
    exact ⟨rfl, hiff⟩
  unfold initializeStore commitRecord
  rw [wp_bind, BootM.wp_flash]
  cases hload : loadLatest b.mem with
  | valid k o => exact absurd hload (hl k o)
  | empty => rwa [if_neg (by decide)]
  | invalid => rwa [if_neg (by decide)]

theorem loadLatest_erased : loadLatest (fun _ => 0xFF) = .empty :=
  recordFormat.load_blank fun _ _ _ => rfl

end BootJournal

namespace BootMetadata

variable {slot : Slot} {b b' : Board} {record r : BootSlotMetadata}

/-- What a successful `write_record` leaves in a slot without a current record. -/
theorem wp_writeRecord_yields {programming : Bool} (hl : ∀ k o, load slot b.mem ≠ .valid k o) :
    wp (writeRecord slot record (status (load slot b.mem)) programming)
      (fun res b' => ∀ r, res = some r → r = completed slot 1 record ∧
        ((∃ k, load slot b'.mem = .valid k r) ↔
          (recordFormat slot).Yields (completed slot 1 record) (copies slot b.mem)))
      (fun _ => True) b := by
  have hwrite : wp (writeCopy (recordFormat slot) (BootMetadataStorage.port slot) 0
      (completed slot 1 record))
      (fun res b' => ∀ r, res = some r → r = completed slot 1 record ∧
        ((∃ k, load slot b'.mem = .valid k r) ↔
          (recordFormat slot).Yields (completed slot 1 record) (copies slot b.mem)))
      (fun _ => True) b := by
    refine wp_mono (wp_writeCopy_stored (P := BootMetadataStorage.port slot)
      (F := recordFormat slot) (le_refl _)
      (show flashPhraseSize ∣ metadataRecordSize by decide) fun hready =>
        BootMetadataStorage.erase_unready (Bool.eq_false_of_not_eq_true hready)) ?_ fun _ h => h
    intro res b' hres r hr
    obtain ⟨rfl, hv, hw⟩ := hres r hr
    have hseq : (recordFormat slot).sequence (completed slot 1 record) = 1 := rfl
    have hiff := hw.load_iff_yields (recordFormat_size_le slot) hseq hv
    exact ⟨rfl, hiff⟩
  unfold writeRecord
  rw [wp_bind, BootM.wp_flash, if_neg (by simp)]
  cases hload : load slot b.mem with
  | valid k o => exact absurd hload (hl k o)
  | empty =>
    dsimp only
    rw [wp_ite]
    split
    · exact (wp_pure none).2 fun r hr => by cases hr
    · exact hwrite
  | invalid =>
    dsimp only
    rw [wp_ite]
    split
    · exact (wp_pure none).2 fun r hr => by cases hr
    · exact hwrite

/-- What a successful `BootMetadata_Initialize` leaves. -/
theorem wp_initializeStore_yields (hl : ∀ k o, load slot b.mem ≠ .valid k o) :
    wp (initializeStore slot record)
      (fun res b' => ∀ r, res = some r → r = completed slot 1 record ∧
        ((∃ k, load slot b'.mem = .valid k r) ↔
          (recordFormat slot).Yields (completed slot 1 record) (copies slot b.mem)))
      (fun _ => True) b := by
  unfold initializeStore
  rw [wp_bind, BootM.wp_flash, wp_ite]
  split
  · exact (wp_pure none).2 fun r hr => by cases hr
  · exact wp_writeRecord_yields hl

/-- What a successful `BootMetadata_InstallVerified` leaves in a slot without a current record. -/
theorem wp_installVerified_yields {version counter reason : Word}
    (hl : ∀ k o, load slot b.mem ≠ .valid k o) :
    wp (installVerified slot version counter reason)
      (fun ok b' => ok = true →
        ((∃ k, load slot b'.mem =
          .valid k (completed slot 1 (verifiedRecord version counter reason))) ↔
          (recordFormat slot).Yields (completed slot 1 (verifiedRecord version counter reason))
            (copies slot b.mem)))
      (fun _ => True) b := by
  have hwrite : wp (writeRecord slot (verifiedRecord version counter reason)
      (status (load slot b.mem)) true) _ _ b := wp_writeRecord_yields hl
  have hdone : wp (do return (← writeRecord slot (verifiedRecord version counter reason)
      (status (load slot b.mem)) true).isSome)
      (fun ok b' => ok = true →
        ((∃ k, load slot b'.mem =
          .valid k (completed slot 1 (verifiedRecord version counter reason))) ↔
          (recordFormat slot).Yields (completed slot 1 (verifiedRecord version counter reason))
            (copies slot b.mem)))
      (fun _ => True) b := by
    refine wp_seq hwrite ?_ fun _ h => h
    intro res b' hres
    refine (wp_pure _).2 fun hok => ?_
    obtain ⟨r, rfl⟩ := Option.isSome_iff_exists.1 hok
    obtain ⟨rfl, hiff⟩ := hres r rfl
    exact hiff
  unfold installVerified
  rw [wp_bind, BootM.wp_flash]
  cases hload : load slot b.mem with
  | valid k o => exact absurd hload (hl k o)
  | empty => rwa [hload] at hdone
  | invalid => rwa [hload] at hdone

/-- Without faults and cuts the metadata of a slot whose store is empty can be started. -/
theorem wp_writeRecord_empty {programming : Bool} (hready : b.ram.flash.ready = true)
    (hl : load slot b.mem = .empty) (hf : b.dev.Faultless) (hc : b.dev.Uncut)
    (hallowed : programming = true ∨ record.state = BootImageState.confirmed.code)
    (hwf : WellFormed record) :
    wp (writeRecord slot record .empty programming) (fun res _ => res ≠ none) (fun _ => False)
      b := by
  have hu : (register slot b.mem).Unset := .inl ((recordFormat slot).load_empty_iff.1 hl)
  have hspec := wp_writeRecord_first hready hu hallowed hwf
  rw [hl] at hspec
  refine wp_mono hspec ?_ fun _ h => h.2.2 hc
  rintro res b' ⟨d, -, hw⟩ rfl
  exact hw.fault rfl hf

theorem initializeStore_done (hready : b.ram.flash.ready = true) (hl : load slot b.mem = .empty)
    (hf : b.dev.Faultless) (hc : b.dev.Uncut)
    (hstate : record.state = BootImageState.confirmed.code) (hwf : WellFormed record) :
    ∃ r b', initializeStore slot record b = .done (some r) b' := by
  have hrun : wp (initializeStore slot record) (fun res _ => res ≠ none) (fun _ => False) b := by
    unfold initializeStore
    rw [wp_bind, BootM.wp_flash, hl, wp_ite, if_neg (by decide)]
    exact wp_writeRecord_empty hready hl hf hc (.inr hstate) hwf
  obtain ⟨res, b', hdone, hres⟩ := wp_done hrun
  obtain ⟨r, rfl⟩ := Option.ne_none_iff_exists'.1 hres
  exact ⟨r, b', hdone⟩

theorem installVerified_done {version counter reason : Word} (hready : b.ram.flash.ready = true)
    (hl : load slot b.mem = .empty) (hf : b.dev.Faultless) (hc : b.dev.Uncut)
    (hwf : WellFormed (verifiedRecord version counter reason)) :
    ∃ b', installVerified slot version counter reason b = .done true b' := by
  have hrun : wp (installVerified slot version counter reason) (fun ok _ => ok = true)
      (fun _ => False) b := by
    unfold installVerified
    rw [wp_bind, BootM.wp_flash, hl]
    refine wp_seq (wp_writeRecord_empty hready hl hf hc (.inl rfl) hwf) ?_
      fun _ h => h
    intro res b' hres
    exact (wp_pure _).2 (Option.isSome_iff_ne_none.2 hres)
  obtain ⟨ok, b', hdone, rfl⟩ := wp_done hrun
  exact ⟨b', hdone⟩

theorem load_erased (slot : Slot) : load slot (fun _ => 0xFF) = .empty :=
  (recordFormat slot).load_blank fun _ _ _ => rfl

end BootMetadata

open BootMetadata in
/-- Initialisation on `b` succeeded.  The next load selects exactly the record written if and only if
    copy 1, as it was found, yields to it; this holds of the journal and of the metadata of each
    slot, for every content of the two copies without a current record. -/
theorem initialize_current_iff (b : Board) :
    (∀ (b' : Board) (record r : BootUpdateJournal),
      (∀ k o, BootJournal.loadLatest b.mem ≠ .valid k o) →
      BootJournal.initializeStore record b = .done (some r) b' →
      r = BootJournal.completed 1 record ∧
        ((∃ k, BootJournal.loadLatest b'.mem = .valid k r) ↔
          BootJournal.recordFormat.Yields (BootJournal.completed 1 record)
            (BootJournal.copies b.mem))) ∧
    (∀ (slot : Slot) (b' : Board) (record r : BootSlotMetadata),
      (∀ k o, load slot b.mem ≠ .valid k o) →
      BootMetadata.initializeStore slot record b = .done (some r) b' →
      r = completed slot 1 record ∧
        ((∃ k, load slot b'.mem = .valid k r) ↔
          (recordFormat slot).Yields (completed slot 1 record) (copies slot b.mem))) ∧
    ∀ (slot : Slot) (b' : Board) (version counter reason : Word),
      (∀ k o, load slot b.mem ≠ .valid k o) →
      installVerified slot version counter reason b = .done true b' →
      ((∃ k, load slot b'.mem =
          .valid k (completed slot 1 (verifiedRecord version counter reason))) ↔
        (recordFormat slot).Yields (completed slot 1 (verifiedRecord version counter reason))
          (copies slot b.mem)) := by
  refine ⟨?_, ?_, ?_⟩
  · intro b' record r hl h
    exact wp_of_eq_done (BootJournal.wp_initializeStore_yields hl) h r rfl
  · intro slot b' record r hl h
    exact wp_of_eq_done (wp_initializeStore_yields hl) h r rfl
  · intro slot b' version counter reason hl h
    exact wp_of_eq_done (wp_installVerified_yields hl) h rfl

/-- The three calls on erased flash. -/
theorem initialize_current_erased :
    (∃ r b, (BootJournal.idleCall []).initializeStore (fun _ => 0xFF) = .done (some r) b ∧
      ∃ k, BootJournal.loadLatest b.mem = .valid k r) ∧
    (∃ r b, BootMetadata.initializeStore .a BootMetadata.confirmedExample
        ((BootJournal.idleCall []).board fun _ => 0xFF) = .done (some r) b ∧
      ∃ k, BootMetadata.load .a b.mem = .valid k r) ∧
    ∃ b, BootMetadata.installVerified .a 1 1 0 ((BootJournal.idleCall []).board fun _ => 0xFF) =
        .done true b ∧
      ∃ k, BootMetadata.load .a b.mem = .valid k
        (BootMetadata.completed .a 1 (BootMetadata.verifiedRecord 1 1 0)) := by
  have hready : ((BootJournal.idleCall []).board fun _ => 0xFF).ram.flash.ready = true := rfl
  have hf : ((BootJournal.idleCall []).board fun _ => 0xFF).dev.Faultless := fun n hn => by cases hn
  have hc : ((BootJournal.idleCall []).board fun _ => 0xFF).dev.Uncut := fun n hn => by cases hn
  have hjl : BootJournal.loadLatest ((BootJournal.idleCall []).board fun _ => 0xFF).mem = .empty :=
    BootJournal.loadLatest_erased
  have hml : BootMetadata.load .a ((BootJournal.idleCall []).board fun _ => 0xFF).mem = .empty :=
    BootMetadata.load_erased .a
  have hcall : ∀ mem, (BootJournal.idleCall []).initializeStore mem =
      BootJournal.initializeStore BootJournal.idleRecord ((BootJournal.idleCall []).board mem) :=
    fun _ => rfl
  rw [hcall]
  generalize (BootJournal.idleCall []).board (fun _ => 0xFF) = b₀ at hready hf hc hjl hml ⊢
  have hju : ∀ k o, BootJournal.loadLatest b₀.mem ≠ .valid k o := by
    intro k o h
    rw [hjl] at h
    cases h
  have hmu : ∀ k o, BootMetadata.load .a b₀.mem ≠ .valid k o := by
    intro k o h
    rw [hml] at h
    cases h
  obtain ⟨r, b, hj⟩ := BootJournal.initializeStore_done hready
    (.inl (BootJournal.recordFormat.load_empty_iff.1 hjl)) BootJournal.idleRecord_wellFormed hf hc
  have hconfirmed : ∃ r b', BootMetadata.initializeStore .a BootMetadata.confirmedExample b₀ =
      .done (some r) b' := BootMetadata.initializeStore_done
    hready hml hf hc rfl (.of_validate BootMetadata.validate_confirmedExample)
  have hinstalled : ∃ b', BootMetadata.installVerified .a 1 1 0 b₀ = .done true b' :=
    BootMetadata.installVerified_done hready hml hf hc
    ⟨by decide, by decide, by decide, by decide, .inr rfl, .inr rfl, rfl, rfl, rfl, by decide⟩
  obtain ⟨r', b', hm⟩ := hconfirmed
  obtain ⟨b'', hv⟩ := hinstalled
  obtain ⟨hjournal, hmetadata, hverified⟩ := initialize_current_iff b₀
  exact ⟨⟨r, b, hj, (hjournal _ _ _ hju hj).2.2 (Format.yields_of_empty hjl)⟩,
    ⟨r', b', hm, (hmetadata _ _ _ _ hmu hm).2.2 (Format.yields_of_empty hml)⟩,
    b'', hv, (hverified _ _ _ _ _ hmu hv).2 (Format.yields_of_empty hml)⟩

/-! ## Two valid copies with one sequence number -/

namespace BootJournal

/-- Flash that is erased but for the two journal records. -/
def pairRecords (r₀ r₁ : BootUpdateJournal) : Nat → Byte :=
  place (FlashDriver.journalAddress 0) journalRecordSize r₀.bytes
    (place (FlashDriver.journalAddress 1) journalRecordSize r₁.bytes fun _ => 0xFF)

theorem copy_pairRecords_zero {r₀ r₁ : BootUpdateJournal} (hv : validate r₀ = true) :
    recordFormat.copy (copies (pairRecords r₀ r₁) 0) = some r₀ := by
  refine recordFormat.copy_encode hv fun i hi => ?_
  unfold copies pairRecords
  exact place_inside hi

theorem copy_pairRecords_one {r₀ r₁ : BootUpdateJournal} (hv : validate r₁ = true) :
    recordFormat.copy (copies (pairRecords r₀ r₁) 1) = some r₁ := by
  refine recordFormat.copy_encode hv fun i hi => ?_
  unfold copies pairRecords
  rw [place_outside]
  · exact place_inside hi
  · exact .inr (le_trans (show FlashDriver.journalAddress 0 + journalRecordSize ≤
      FlashDriver.journalAddress 1 by decide) (Nat.le_add_right _ _))

/-- Two valid copies with one sequence number and different records are ambiguous. -/
theorem loadLatest_pairRecords {r₀ r₁ : BootUpdateJournal} (hv₀ : validate r₀ = true)
    (hv₁ : validate r₁ = true) (hseq : r₀.sequence = r₁.sequence) (hne : r₀ ≠ r₁) :
    loadLatest (pairRecords r₀ r₁) = .invalid := by
  have hself : ¬ sequenceNewer r₁.sequence r₁.sequence = true := by simp [sequenceNewer]
  have hseq' : recordFormat.sequence r₀ = r₁.sequence := hseq
  have hseq'' : recordFormat.sequence r₁ = r₁.sequence := rfl
  unfold loadLatest
  rw [Format.load_eq, copy_pairRecords_zero hv₀, copy_pairRecords_one hv₁]
  dsimp only
  rw [hseq', hseq'', if_neg hself, if_neg hself, if_neg]
  exact fun heq => hne (recordFormat.equal_iff.1 heq)

/-- A journal record with sequence number 7 that names the transaction. -/
def seventh (transaction : Word) : BootUpdateJournal :=
  completed 7 { idleRecord with transactionId := transaction }

theorem validate_seventh (transaction : Word) : validate (seventh transaction) = true :=
  validate_completed 7 ⟨idleRecord_wellFormed.state, idleRecord_wellFormed.lastResult,
    idleRecord_wellFormed.activeSlot, idleRecord_wellFormed.targetSlot,
    idleRecord_wellFormed.target_ne_active, idleRecord_wellFormed.expectedSize_le,
    idleRecord_wellFormed.committedSize_le, idleRecord_wellFormed.lastBlockSequence,
    idleRecord_wellFormed.flags, idleRecord_wellFormed.size, idleRecord_wellFormed.header⟩

theorem seventh_sequence (transaction : Word) : (seventh transaction).sequence = 7 := rfl

theorem seventh_transaction (transaction : Word) :
    (seventh transaction).transactionId = transaction := rfl

theorem seventh_ne : seventh 10 ≠ seventh 11 := by
  intro h
  have htid := congrArg BootUpdateJournal.transactionId h
  rw [seventh_transaction, seventh_transaction] at htid
  exact absurd htid (by decide)

/-- A first record that copy 1 does not yield to is written and not selected. -/
theorem initializeStore_lost {b : Board} {record o : BootUpdateJournal}
    (hready : b.ram.flash.ready = true) (hf : b.dev.Faultless) (hc : b.dev.Uncut)
    (hwf : WellFormed record) (hl : loadLatest b.mem = .invalid)
    (hcopy : recordFormat.copy (copies b.mem 1) = some o) (hlow : 1 ≤ o.sequence)
    (hhigh : o.sequence ≤ 0x80000001) (hne : o ≠ completed 1 record) :
    ∃ r b', initializeStore record b = .done (some r) b' ∧
      ¬ ∃ k, loadLatest b'.mem = .valid k r := by
  have hunset : ∀ k o, loadLatest b.mem ≠ .valid k o := by
    intro k o h
    rw [hl] at h
    cases h
  have hnot : ¬ recordFormat.Yields (completed 1 record) (copies b.mem) := by
    intro h
    have hseq : recordFormat.sequence o = o.sequence := rfl
    rcases h o hcopy with h | h | h
    · rw [hseq] at h
      bv_omega
    · rw [hseq] at h
      bv_omega
    · exact hne h
  have hv : validate (completed 1 record) = true := validate_completed 1 hwf
  -- the write goes through to its end
  have hwrite : wp (writeCopy recordFormat BootJournalStorage.port 0 (completed 1 record))
      (fun res _ => res ≠ none) (fun _ => False) b := by
    refine wp_mono (wp_writeCopy (P := BootJournalStorage.port) (F := recordFormat) (le_refl _)
      (by decide) hready hv) ?_ fun _ h => h.2 hc
    rintro res b' ⟨d, rfl, -, -, hnone⟩ rfl
    exact hnone rfl hf
  have hrun : wp (initializeStore record) (fun res _ => res ≠ none) (fun _ => False) b := by
    unfold initializeStore commitRecord
    rw [wp_bind, BootM.wp_flash, hl]
    dsimp only
    rwa [if_neg (by decide)]
  obtain ⟨res, b', hdone, hres⟩ := wp_done hrun
  cases res with
  | none => exact absurd rfl hres
  | some r =>
    obtain ⟨rfl, hiff⟩ := wp_of_eq_done (wp_initializeStore_yields hunset) hdone r rfl
    exact ⟨_, b', hdone, fun h => hnot (hiff.1 h)⟩

/-- With transactions 10 and 11 in conflict commissioning reports success, and the next load does
    not find the record. -/
theorem initializeStore_ineffective :
    ∃ r b, loadLatest (pairRecords (seventh 10) (seventh 11)) = .invalid ∧
      (idleCall []).initializeStore (pairRecords (seventh 10) (seventh 11)) = .done (some r) b ∧
      ¬ ∃ k, loadLatest b.mem = .valid k r := by
  have hl : loadLatest (pairRecords (seventh 10) (seventh 11)) = .invalid :=
    loadLatest_pairRecords (validate_seventh 10) (validate_seventh 11)
      ((seventh_sequence 10).trans (seventh_sequence 11).symm) seventh_ne
  have hcopy : recordFormat.copy (copies (pairRecords (seventh 10) (seventh 11)) 1) =
      some (seventh 11) := copy_pairRecords_one (validate_seventh 11)
  have hseq := seventh_sequence 11
  have hne : seventh 11 ≠ completed 1 idleRecord := by
    intro h
    have h71 : (7 : Word) = 1 := hseq.symm.trans (congrArg BootUpdateJournal.sequence h)
    exact absurd h71 (by decide)
  generalize seventh 11 = o at hl hcopy hseq hne ⊢
  generalize pairRecords (seventh 10) o = mem at hl hcopy ⊢
  have hlost := initializeStore_lost (b := (idleCall []).board mem) (o := o) rfl
    (fun n hn => by cases hn) (fun n hn => by cases hn) idleRecord_wellFormed hl hcopy
    (by rw [hseq]; decide) (by rw [hseq]; decide) hne
  obtain ⟨r, b, hrun, hnot⟩ := hlost
  exact ⟨r, b, hl, hrun, hnot⟩

end BootJournal
