import BootloaderV2.MetadataSpec

/-!
# Slot metadata commits are atomic and per slot

A run of metadata calls on both slots, each with its own board around the same flash and its own
fates for the flash commands.
-/

open BootConfig NorFlash CrashM TwoCopy

namespace BootMetadata

/-- The record a call sets out to write after `old`. -/
def Call.newRecord (old : BootSlotMetadata) : Call → BootSlotMetadata
  | commit record => record
  | setState state reason result => stateRecord old state reason result
  | incrementAttempt reason => attemptRecord old reason
  | installVerified version counter reason => verifiedRecord version counter reason

/-- What the call asks for is recorded already. -/
def Call.Recorded (old : BootSlotMetadata) : Call → Prop
  | setState state _ _ => old.state = state.code
  | installVerified version counter _ =>
    old.state = BootImageState.verified.code ∧ old.imageVersion = version ∧
      old.updateCounter = counter
  | _ => False

/-- A call on a slot and the board it runs on, the flash aside. -/
structure StoreCall where
  slot : Slot
  call : Call
  fates : List Fate
  ram : Ram
  retained : RetainedRecord
  hw : Hardware

namespace StoreCall

def board (c : StoreCall) (mem : Nat → Byte) : Board :=
  ⟨⟨mem, c.fates, []⟩, c.ram, c.retained, c.hw⟩

@[simp] theorem board_mem (c : StoreCall) (mem : Nat → Byte) : (c.board mem).mem = mem := rfl

def run (c : StoreCall) (mem : Nat → Byte) : Outcome Board Bool := c.call.run c.slot (c.board mem)

/-- The flash after the call, however it ends. -/
def step (mem : Nat → Byte) (c : StoreCall) : Nat → Byte := (c.run mem).state.mem

end StoreCall

section

variable {slot : Slot} {b : Board} {k : Fin 2} {old : BootSlotMetadata}

/-- A call asks for its new record unless it is refused or has nothing to do. -/
theorem Call.request_cases (c : Call) (old : BootSlotMetadata) :
    c.request old = .refused ∨ (c.request old = .recorded ∧ c.Recorded old) ∨
      (c.request old = .write (c.newRecord old) ∧ WellFormed (c.newRecord old)) := by
  have hreq : ∀ (p : Bool) (n : BootSlotMetadata),
      BootMetadata.request p old n = .refused ∨
        (BootMetadata.request p old n = .write n ∧ WellFormed n) := by
    intro p n
    unfold BootMetadata.request
    split
    · rename_i h
      exact .inr ⟨rfl, h.2⟩
    · exact .inl rfl
  cases c with
  | commit record => exact (hreq _ _).imp_right .inr
  | setState state reason result =>
    simp only [Call.request]
    split
    · rename_i h
      exact .inr (.inl ⟨rfl, h⟩)
    · exact (hreq _ _).imp_right .inr
  | incrementAttempt reason =>
    simp only [Call.request]
    split
    · exact .inl rfl
    · exact (hreq _ _).imp_right .inr
  | installVerified version counter reason =>
    simp only [Call.request]
    split
    · rename_i h
      exact .inr (.inl ⟨rfl, h⟩)
    · exact (hreq _ _).imp_right .inr

/-- Without the flash driver a call writes nothing. -/
theorem wp_call_unready (c : Call) (hready : b.ram.flash.ready = false)
    (hl : load slot b.mem = .valid k old) :
    wp (c.run slot) (fun ok b' => b' = b ∧ (ok = true → c.Recorded old)) (fun _ => False) b := by
  have hwrite : ∀ n p, wp (writeRecord slot n .valid p) (fun res b' => res = none ∧ b' = b)
      (fun _ => False) b := by
    intro n p
    unfold writeRecord
    rw [wp_bind, BootM.wp_flash, hl]
    dsimp only
    rw [if_neg (by simp [status]), wp_ite]
    split
    · exact (wp_pure none).2 ⟨rfl, rfl⟩
    · exact writeCopy_unready (BootMetadataStorage.erase_unready hready) ⟨rfl, rfl⟩
  have hsome : ∀ n p, wp (writeRecord slot n .valid p)
      (fun res b' => b' = b ∧ (res.isSome = true → c.Recorded old)) (fun _ => False) b := by
    intro n p
    refine wp_mono (hwrite n p) ?_ fun _ h => h
    rintro res b' ⟨rfl, rfl⟩
    exact ⟨rfl, fun h => by cases h⟩
  cases c with
  | commit record => exact wp_map.2 (hsome _ _)
  | setState state reason result =>
    simp only [Call.run, setState]
    rw [wp_bind, BootM.wp_flash, hl]
    dsimp only
    split
    · rename_i h
      exact (wp_pure true).2 ⟨rfl, fun _ => h⟩
    · exact wp_bind.2 (hsome _ _)
  | incrementAttempt reason =>
    simp only [Call.run, incrementAttempt]
    rw [wp_bind, BootM.wp_flash, hl]
    dsimp only
    split
    · exact (wp_pure false).2 ⟨rfl, fun h => by cases h⟩
    · exact wp_bind.2 (hsome _ _)
  | installVerified version counter reason =>
    simp only [Call.run, installVerified]
    rw [wp_bind, BootM.wp_flash, hl]
    dsimp only
    split
    · rename_i h
      exact (wp_pure true).2 ⟨rfl, fun _ => h⟩
    · exact wp_bind.2 (hsome _ _)

/-- The copies of the other slot are the same. -/
def OtherSame (slot : Slot) (m m' : Nat → Byte) : Prop :=
  ∀ k i, i < flashSectorSize →
    m' (FlashDriver.metadataAddress slot.other k + i) =
      m (FlashDriver.metadataAddress slot.other k + i)

theorem OtherSame.refl (slot : Slot) (m : Nat → Byte) : OtherSame slot m m := fun _ _ _ => rfl

theorem otherSame_of_stage {k : Fin 2} {next : BootSlotMetadata} {m m' : Nat → Byte}
    (h : Stage slot k next m m') : OtherSame slot m m' := by
  rcases h with rfl | ⟨p, -, hw⟩
  · exact .refl slot _
  · intro j i hi
    have hapart := FlashDriver.metadataAddress_apart slot k j
    refine hw.outside _ ?_
    show _ < FlashDriver.metadataAddress slot k ∨
      FlashDriver.metadataAddress slot k + flashSectorSize ≤ _
    omega

theorem load_otherSame {m m' : Nat → Byte} (h : OtherSame slot.other m m') :
    load slot m' = load slot m := by
  refine (recordFormat slot).load_congr fun k i hi => ?_
  have hi' : i < 80 := hi
  have := h k i (by unfold flashSectorSize; omega)
  rwa [Slot.other_other] at this

/-- No write reaches the other slot. -/
theorem wp_writeRecord_frame {r : BootSlotMetadata} {expected : BootMetadataStatus}
    {programming : Bool} :
    wp (writeRecord slot r expected programming) (fun _ b' => OtherSame slot b.mem b'.mem)
      (fun b' => OtherSame slot b.mem b'.mem) b := by
  have hwrite : ∀ k next, wp (writeCopy (recordFormat slot) (BootMetadataStorage.port slot) k next)
      (fun _ b' => OtherSame slot b.mem b'.mem) (fun b' => OtherSame slot b.mem b'.mem) b := by
    intro k next
    by_cases hready : b.ram.flash.ready = true
    swap
    · exact writeCopy_unready (BootMetadataStorage.erase_unready (by simpa using hready)) (.refl _ _)
    by_cases hv : (recordFormat slot).valid next = true
    swap
    · exact writeCopy_invalid (by simpa using hv) (.refl _ _)
    refine wp_mono (wp_writeCopy (P := BootMetadataStorage.port slot) (F := recordFormat slot)
      (le_refl _) (show flashPhraseSize ∣ metadataRecordSize by decide) hready hv) ?_ ?_
    · rintro res b' ⟨d', rfl, hrun, -⟩
      exact otherSame_of_stage hrun.stage
    · rintro b' ⟨hrun, -⟩
      exact otherSame_of_stage hrun.stage
  unfold writeRecord
  rw [wp_bind, BootM.wp_flash, wp_ite]
  split
  · exact (wp_pure none).2 (.refl _ _)
  · split
    · rw [wp_ite]
      split
      · exact (wp_pure none).2 (.refl _ _)
      · exact hwrite _ _
    · rw [wp_ite]
      split
      · exact (wp_pure none).2 (.refl _ _)
      · exact hwrite _ _

/-- No call reaches the other slot. -/
theorem wp_call_frame (c : Call) :
    wp (c.run slot) (fun _ b' => OtherSame slot b.mem b'.mem)
      (fun b' => OtherSame slot b.mem b'.mem) b := by
  cases c with
  | commit record => exact wp_map.2 wp_writeRecord_frame
  | setState state reason result =>
    simp only [Call.run, setState]
    rw [wp_bind, BootM.wp_flash]
    split
    · rw [wp_ite]
      split
      · exact (wp_pure true).2 (.refl _ _)
      · exact wp_bind.2 wp_writeRecord_frame
    · exact (wp_pure false).2 (.refl _ _)
  | incrementAttempt reason =>
    simp only [Call.run, incrementAttempt]
    rw [wp_bind, BootM.wp_flash]
    split
    · rw [wp_ite]
      split
      · exact (wp_pure false).2 (.refl _ _)
      · exact wp_bind.2 wp_writeRecord_frame
    · exact (wp_pure false).2 (.refl _ _)
  | installVerified version counter reason =>
    simp only [Call.run, installVerified]
    rw [wp_bind, BootM.wp_flash]
    split
    · rw [wp_ite]
      split
      · exact (wp_pure true).2 (.refl _ _)
      · exact wp_bind.2 wp_writeRecord_frame
    · exact wp_bind.2 wp_writeRecord_frame

/-- The current record of the slot is `r`. -/
def Current (slot : Slot) (r : BootSlotMetadata) (mem : Nat → Byte) : Prop :=
  ∃ k, load slot mem = .valid k r

/-- The record that the call commits after `r`. -/
def StoreCall.next (c : StoreCall) (r : BootSlotMetadata) : BootSlotMetadata :=
  completed c.slot (r.sequence + 1) (c.call.newRecord r)

theorem current_of_stage {r n : BootSlotMetadata} {k : Fin 2} {m m' : Nat → Byte}
    (hwf : WellFormed n) (hl : load slot m = .valid k r)
    (h : Stage slot (1 - k) (completed slot (r.sequence + 1) n) m m') :
    Current slot r m' ∨ Current slot (completed slot (r.sequence + 1) n) m' := by
  have hv := validate_completed slot (r.sequence + 1) hwf
  rcases h with rfl | ⟨p, hp, hw⟩
  · exact .inl ⟨k, hl⟩
  · have hreg := hw.register (recordFormat_size_le slot) hl rfl hv hp
    rcases Nat.lt_or_eq_of_le hp with hlt | heq
    · exact .inl ⟨k, (hreg.1 hlt).1⟩
    · exact .inr ⟨1 - k, (hreg.2 heq).1⟩

/-- What a call does to the store of its slot. -/
theorem call_spec (c : StoreCall) {r : BootSlotMetadata} {mem : Nat → Byte}
    (hcur : Current c.slot r mem) :
    (Current c.slot r (c.step mem) ∨ Current c.slot (c.next r) (c.step mem)) ∧
    (∀ b, c.run mem = .done false b → (c.board mem).dev.Faultless → b.dev = (c.board mem).dev) ∧
    (∀ b, c.run mem = .done true b → Current c.slot (c.next r) b.mem ∨
      (c.call.Recorded r ∧ b.dev = (c.board mem).dev)) := by
  obtain ⟨k, hl⟩ := hcur
  -- a run that issues no command
  have hquiet : ∀ ok b, c.run mem = .done ok b → b.dev = (c.board mem).dev →
      (ok = true → c.call.Recorded r) →
      (Current c.slot r (c.step mem) ∨ Current c.slot (c.next r) (c.step mem)) ∧
      (∀ b, c.run mem = .done false b → (c.board mem).dev.Faultless →
        b.dev = (c.board mem).dev) ∧
      (∀ b, c.run mem = .done true b → Current c.slot (c.next r) b.mem ∨
        (c.call.Recorded r ∧ b.dev = (c.board mem).dev)) := by
    intro ok b hrun hdev hrec
    have hmem : c.step mem = mem := by
      rw [StoreCall.step, hrun]
      show b.dev.mem = mem
      rw [hdev]
      rfl
    rw [hmem]
    refine ⟨.inl ⟨k, hl⟩, fun b' hb' _ => ?_, fun b' hb' => ?_⟩
    · rw [hrun] at hb'
      cases hb'
      exact hdev
    · rw [hrun] at hb'
      cases hb'
      exact .inr ⟨hrec rfl, hdev⟩
  by_cases hready : c.ram.flash.ready = true
  swap
  · obtain ⟨ok, b, hrun, rfl, hrec⟩ := wp_done
      (wp_call_unready (b := c.board mem) c.call (Bool.not_eq_true _ ▸ hready) hl)
    exact hquiet ok _ hrun rfl hrec
  have hspec := wp_call (b := c.board mem) c.call hready hl
  rcases c.call.request_cases r with hreq | ⟨hreq, hrec⟩ | ⟨hreq, hwf⟩
  · rw [hreq] at hspec
    obtain ⟨ok, b, hrun, d, rfl, rfl, rfl⟩ := wp_done hspec
    exact hquiet _ _ hrun rfl fun h => by cases h
  · rw [hreq] at hspec
    obtain ⟨ok, b, hrun, d, rfl, rfl, rfl⟩ := wp_done hspec
    exact hquiet _ _ hrun rfl fun _ => hrec
  · rw [hreq] at hspec
    unfold StoreCall.step
    cases hrun : c.run mem with
    | done ok b =>
      obtain ⟨d, rfl, hw⟩ := wp_of_eq_done hspec hrun
      refine ⟨current_of_stage hwf hl hw.stage, fun b' hb' hf => ?_, fun b' hb' => ?_⟩
      · cases hb'
        exact absurd hf (hw.fault rfl)
      · cases hb'
        exact .inl ⟨_, (hw.stored rfl).1⟩
    | cut b =>
      obtain ⟨-, hstage, -⟩ := wp_of_eq_cut hspec hrun
      exact ⟨current_of_stage hwf hl hstage, fun b' hb' => (by cases hb'),
        fun b' hb' => (by cases hb')⟩

theorem step_frame (c : StoreCall) (mem : Nat → Byte) : OtherSame c.slot mem (c.step mem) :=
  wp_state (wp_call_frame (b := c.board mem) c.call)

theorem current_step (c : StoreCall) {r : BootSlotMetadata} {mem : Nat → Byte}
    (hcur : Current slot r mem) : ∃ r', Current slot r' (c.step mem) := by
  by_cases hs : c.slot = slot
  · subst hs
    rcases (call_spec c hcur).1 with h | h
    · exact ⟨_, h⟩
    · exact ⟨_, h⟩
  · obtain ⟨k, hl⟩ := hcur
    have hframe := step_frame c mem
    rw [Slot.eq_other_of_ne hs] at hframe
    exact ⟨r, k, by rw [load_otherSame hframe, hl]⟩

/-- Metadata commits are atomic over every run of calls on both slots: a slot with a current record
    keeps one, a call leaves the current record or makes its whole new record the current one,
    success means the new record is current or was recorded already, failure without a fault means
    that nothing was written, and the other slot's copies are untouched. -/
theorem call_atomic {mem₀ : Nat → Byte} {r₀ : BootSlotMetadata} {k₀ : Fin 2}
    (hl : load slot mem₀ = .valid k₀ r₀) (calls : List StoreCall) :
    let mem := calls.foldl StoreCall.step mem₀
    ∃ k r, load slot mem = .valid k r ∧
    ∀ c : StoreCall, c.slot = slot →
      ((∃ j, load slot (c.step mem) = .valid j r) ∨
        ∃ j, load slot (c.step mem) =
          .valid j (completed slot (r.sequence + 1) (c.call.newRecord r))) ∧
      (∀ b, c.run mem = .done false b → (c.board mem).dev.Faultless →
        b.dev = (c.board mem).dev) ∧
      (∀ b, c.run mem = .done true b →
        (∃ j, load slot b.mem =
          .valid j (completed slot (r.sequence + 1) (c.call.newRecord r))) ∨
        (c.call.Recorded r ∧ b.dev = (c.board mem).dev)) ∧
      ∀ k i, i < flashSectorSize →
        c.step mem (FlashDriver.metadataAddress slot.other k + i) =
          mem (FlashDriver.metadataAddress slot.other k + i) := by
  intro mem
  have hrun : ∀ (cs : List StoreCall) (m : Nat → Byte) (r : BootSlotMetadata),
      Current slot r m → ∃ r', Current slot r' (cs.foldl StoreCall.step m) := by
    intro cs
    induction cs with
    | nil => exact fun _ r h => ⟨r, h⟩
    | cons c cs ih =>
      intro m r h
      obtain ⟨r', h'⟩ := current_step c h
      exact ih _ r' h'
  obtain ⟨r, k, hk⟩ := hrun calls mem₀ r₀ ⟨k₀, hl⟩
  refine ⟨k, r, hk, ?_⟩
  rintro c rfl
  obtain ⟨hload, hfalse, htrue⟩ := call_spec c ⟨k, hk⟩
  exact ⟨hload, hfalse, htrue, step_frame c mem⟩

end

/-! ## A confirmed slot -/

/-- Erased flash but for one record in copy 0. -/
def singleRecord (slot : Slot) (r : BootSlotMetadata) : Nat → Byte :=
  place (FlashDriver.metadataAddress slot 0) metadataRecordSize r.bytes fun _ => 0xFF

theorem load_singleRecord {slot : Slot} {r : BootSlotMetadata} (hv : validate slot r = true) :
    load slot (singleRecord slot r) = .valid 0 r := by
  refine (recordFormat slot).load_of_single ?_ ?_
  · refine (recordFormat slot).copy_encode hv fun i hi => ?_
    unfold copies singleRecord
    exact place_inside hi
  · refine (recordFormat slot).copy_torn ?_
    unfold copies singleRecord
    refine place_outside (.inr ?_)
    cases slot <;> decide

/-- A confirmed record as `BootLifecycle_Init` creates it for version 1. -/
def confirmedExample : BootSlotMetadata :=
  completed .a 1 { BootSlotMetadata.zero with
    imageVersion := 1
    state := BootImageState.confirmed.code
    failedSlot := SlotId.unknownCode
    rollbackTarget := SlotId.unknownCode }

theorem validate_confirmedExample : validate .a confirmedExample = true :=
  validate_completed .a 1 ⟨by decide, by decide, by decide, by decide, .inr rfl, .inr rfl, rfl, rfl,
    rfl, by decide⟩

def exampleCall (call : Call) (fates : List Fate) : StoreCall :=
  ⟨.a, call, fates, Ram.driverReady, ⟨0, 0, 0, 0⟩, Hardware.powerOn⟩

/-- A store with a confirmed slot A after a transaction was installed and cut, and once more. -/
theorem call_atomic_cut :
    ∃ k r, load .a ([exampleCall (.installVerified 2 1 0) [.ok, .cut 3],
      exampleCall (.installVerified 2 1 0) []].foldl StoreCall.step
        (singleRecord .a confirmedExample)) = .valid k r := by
  obtain ⟨k, r, h, -⟩ := call_atomic (load_singleRecord validate_confirmedExample)
    [exampleCall (.installVerified 2 1 0) [.ok, .cut 3],
      exampleCall (.installVerified 2 1 0) []]
  exact ⟨k, r, h⟩

/-- Setting the state a slot already has reports success and writes no next record. -/
theorem setState_same {c : StoreCall} {mem : Nat → Byte} {k : Fin 2} {r : BootSlotMetadata}
    {state : BootImageState} {reason result : Word} (hc : c.call = .setState state reason result)
    (hl : load c.slot mem = .valid k r) (hs : r.state = state.code) :
    ∃ b, c.run mem = .done true b ∧
      ¬ ∃ j, load c.slot b.mem =
        .valid j (completed c.slot (r.sequence + 1) (c.call.newRecord r)) := by
  have hwp : wp (c.call.run c.slot) (fun ok b => ok = true ∧ b = c.board mem) (fun _ => False)
      (c.board mem) := by
    simp only [hc, Call.run, setState]
    rw [wp_bind, BootM.wp_flash, StoreCall.board_mem, hl]
    dsimp only
    rw [if_pos hs]
    exact (wp_pure true).2 ⟨rfl, rfl⟩
  obtain ⟨ok, b, hrun, rfl, rfl⟩ := wp_done hwp
  refine ⟨_, hrun, ?_⟩
  rintro ⟨j, hj⟩
  rw [StoreCall.board_mem] at hj
  have hseq : r.sequence = r.sequence + 1 :=
    congrArg BootSlotMetadata.sequence (Loaded.valid.inj (hl.symm.trans hj)).2
  bv_omega

/-- Confirming a confirmed slot reports success and leaves the record, with its sequence number, as
    it is. -/
theorem setState_recorded :
    ∃ (c : StoreCall) (mem : Nat → Byte) (k : Fin 2) (r : BootSlotMetadata) (b : Board),
      load c.slot mem = .valid k r ∧ c.run mem = .done true b ∧
      ¬ ∃ j, load c.slot b.mem =
        .valid j (completed c.slot (r.sequence + 1) (c.call.newRecord r)) := by
  obtain ⟨b, h⟩ := setState_same (c := exampleCall (.setState .confirmed 0 0) []) rfl
    (load_singleRecord validate_confirmedExample) rfl
  exact ⟨exampleCall (.setState .confirmed 0 0) [], singleRecord .a confirmedExample, 0,
    confirmedExample, b, load_singleRecord validate_confirmedExample, h⟩

end BootMetadata
