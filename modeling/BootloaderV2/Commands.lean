import BootloaderV2.View

/-!
# The commands a program issues, whatever fails

`Issues R m Q b` says that every flash command `m` issues from `b` satisfies `R`, also when commands
fail and when the power is cut, and that `m` returns in `Q` if it returns.
-/

open BootConfig NorFlash CrashM TwoCopy

/-- A relation between a command and the memory before and after it. -/
abbrev CommandRel : Type := Command → (Nat → Byte) → (Nat → Byte) → Prop

def Issues {α : Type} (R : CommandRel) (m : BootM α) (Q : α → Board → Prop) (b : Board) : Prop :=
  wp m (fun a b' => Evolves R b.dev b'.dev ∧ Q a b') (fun b' => Evolves R b.dev b'.dev) b

namespace Issues

variable {α β : Type} {R R' : CommandRel} {m : BootM α} {f : α → BootM β} {Q Q' : α → Board → Prop}
  {P : β → Board → Prop} {b : Board}

theorem pure {a : α} (h : Q a b) : Issues R (Pure.pure a) Q b := (wp_pure a).2 ⟨.refl _, h⟩

/-- Sequencing. -/
theorem bind (h : Issues R m Q b) (hf : ∀ a b', Q a b' → Issues R (f a) P b') :
    Issues R (m >>= f) P b := by
  refine wp_seq h ?_ fun _ hb => hb
  rintro a b' ⟨hev, hq⟩
  exact wp_mono (hf a b' hq) (fun _ _ hb => ⟨hev.trans hb.1, hb.2⟩) fun _ hb => hev.trans hb

/-- The rule of consequence. -/
theorem mono (h : Issues R m Q b) (hQ : ∀ a b', Q a b' → Q' a b') : Issues R m Q' b :=
  wp_mono h (fun a b' hb => ⟨hb.1, hQ a b' hb.2⟩) fun _ hb => hb

theorem weaken (hR : ∀ c m m', R c m m' → R' c m m') (h : Issues R m Q b) : Issues R' m Q b :=
  wp_mono h (fun _ _ hb => ⟨hb.1.mono hR, hb.2⟩) fun _ hb => hb.mono hR

theorem ite {c : Prop} [Decidable c] {n : BootM α} (ht : c → Issues R m Q b)
    (hf : ¬ c → Issues R n Q b) : Issues R (if c then m else n) Q b := by
  split
  · exact ht ‹_›
  · exact hf ‹_›

/-- The commands issued, however the run ends. -/
theorem evolves (h : Issues R m Q b) : Evolves R b.dev (m b).state.dev :=
  wp_state (P := fun b' => Evolves R b.dev b'.dev) (wp_mono h (fun _ _ hb => hb.1) fun _ hb => hb)

theorem of_done {a : α} {b' : Board} (h : Issues R m Q b) (hm : m b = .done a b') : Q a b' :=
  (wp_of_eq_done h hm).2

@[simp] theorem bind_getRam {f : Ram → BootM β} :
    Issues R (BootM.getRam >>= f) P b ↔ Issues R (f b.ram) P b := Iff.rfl

@[simp] theorem bind_flash {f : (Nat → Byte) → BootM β} :
    Issues R (BootM.flash >>= f) P b ↔ Issues R (f b.mem) P b := Iff.rfl

@[simp] theorem bind_get {f : Board → BootM β} :
    Issues R (CrashM.get >>= f) P b ↔ Issues R (f b) P b := Iff.rfl

@[simp] theorem bind_setFlash {n : BootM β} {g : BootFlash.State → BootFlash.State} :
    Issues R (BootM.setFlash g >>= fun _ => n) P b ↔
      Issues R n P { b with ram := { b.ram with flash := g b.ram.flash } } := Iff.rfl

@[simp] theorem bind_setUpdate {n : BootM β} {g : BootUpdate.State → BootUpdate.State} :
    Issues R (BootM.setUpdate g >>= fun _ => n) P b ↔
      Issues R n P { b with ram := { b.ram with update := g b.ram.update } } := Iff.rfl

@[simp] theorem bind_setLifecycle {n : BootM β} {g : BootLifecycle.State → BootLifecycle.State} :
    Issues R (BootM.setLifecycle g >>= fun _ => n) P b ↔
      Issues R n P { b with ram := { b.ram with lifecycle := g b.ram.lifecycle } } := Iff.rfl

@[simp] theorem bind_setManager {n : BootM β} {g : BootManager.State → BootManager.State} :
    Issues R (BootM.setManager g >>= fun _ => n) P b ↔
      Issues R n P { b with ram := { b.ram with manager := g b.ram.manager } } := Iff.rfl

@[simp] theorem bind_setProgramming {n : BootM β}
    {g : BootProgramming.Context → BootProgramming.Context} :
    Issues R (BootM.setProgramming g >>= fun _ => n) P b ↔
      Issues R n P { b with ram := { b.ram with programming := g b.ram.programming } } := Iff.rfl

@[simp] theorem bind_setSecurity {n : BootM β} {g : BootSecurity.State → BootSecurity.State} :
    Issues R (BootM.setSecurity g >>= fun _ => n) P b ↔
      Issues R n P { b with ram := { b.ram with security := g b.ram.security } } := Iff.rfl

@[simp] theorem bind_setUds {n : BootM β} {g : BootUds.State → BootUds.State} :
    Issues R (BootM.setUds g >>= fun _ => n) P b ↔
      Issues R n P { b with ram := { b.ram with uds := g b.ram.uds } } := Iff.rfl

@[simp] theorem bind_setRetained {n : BootM β} {r : RetainedRecord} :
    Issues R (BootM.setRetained r >>= fun _ => n) P b ↔ Issues R n P { b with retained := r } :=
  Iff.rfl

/-- One command, completed, failed or cut. -/
theorem issue {c : Command} (hR : ∀ n, R c b.mem (c.effect n b.mem)) :
    Issues R (BootM.device (NorFlash.issue c)) (fun _ b' => ∃ n, b' = b.setDev (b.dev.after c n))
      b := by
  refine BootM.wp_device.2 (wp_issue ⟨(Evolves.refl _).command _ _ (hR _), _, rfl⟩
    (fun n _ => (Evolves.refl _).command _ _ (hR _))
    fun n _ => ⟨(Evolves.refl _).command _ _ (hR _), _, rfl⟩)

end Issues

/-- No command at all. -/
def Nothing : CommandRel := fun _ _ _ => False

theorem Issues.of_nothing {α : Type} {R : CommandRel} {m : BootM α} {Q : α → Board → Prop} {b : Board}
    (h : Issues Nothing m Q b) : Issues R m Q b :=
  h.weaken fun _ _ _ hc => hc.elim

/-! ## Commands by the sectors they touch -/

namespace NorFlash.Command

def InJournal (c : Command) : Prop :=
  ∃ k, FlashDriver.journalAddress k ≤ c.address ∧
    c.address + c.size ≤ FlashDriver.journalAddress k + flashSectorSize

def InMetadata (c : Command) : Prop :=
  ∃ s k, FlashDriver.metadataAddress s k ≤ c.address ∧
    c.address + c.size ≤ FlashDriver.metadataAddress s k + flashSectorSize

/-- The range of the command and the slot have an address in common. -/
def Touches (s : Slot) (c : Command) : Prop :=
  s.base < c.address + c.size ∧ c.address < s.base + slotSize

theorem InJournal.not_touches {c : Command} (h : c.InJournal) (s : Slot) : ¬ c.Touches s := by
  obtain ⟨k, hlo, -⟩ := h
  have hk := View.journalAddress_range k
  have hs : s.base + slotSize ≤ journalCopy0Address := by cases s <;> decide
  unfold Touches
  omega

theorem InMetadata.not_touches {c : Command} (h : c.InMetadata) (s : Slot) : ¬ c.Touches s := by
  obtain ⟨t, k, hlo, -⟩ := h
  have hk := View.metadataAddress_range t k
  have hs : s.base + slotSize ≤ metadataSlotACopy0Address := by cases s <;> decide
  unfold Touches
  omega

end NorFlash.Command

namespace BootJournal

/-- The record `BootJournal_LoadLatest` finds. -/
def Current (m : Nat → Byte) (j : BootUpdateJournal) : Prop := ∃ k, loadLatest m = .valid k j

theorem Current.unique {m : Nat → Byte} {j j' : BootUpdateJournal} (h : Current m j)
    (h' : Current m j') : j = j' := by
  obtain ⟨k, hk⟩ := h
  obtain ⟨k', hk'⟩ := h'
  exact (Loaded.valid.inj (hk.symm.trans hk')).2

theorem Current.wellFormed {m : Nat → Byte} {j : BootUpdateJournal} (h : Current m j) :
    WellFormed j := by
  obtain ⟨k, hk⟩ := h
  exact .of_validate (recordFormat.copy_eq_some.1 (recordFormat.copy_of_load hk)).1

/-- Memories that agree on the journal sectors have the same current record. -/
theorem Current.congr {m m' : Nat → Byte} {j : BootUpdateJournal} (h : Current m j)
    (hm : ∀ a, journalCopy0Address ≤ a → a < metadataSlotACopy0Address → m' a = m a) :
    Current m' j := by
  obtain ⟨k, hk⟩ := h
  refine ⟨k, ?_⟩
  rw [← hk]
  refine recordFormat.load_congr fun i x hx => hm _ ?_ ?_
  · exact le_trans (View.journalAddress_range i).1 (Nat.le_add_right _ _)
  · have hi := (View.journalAddress_range i).2
    have hx' : x < 128 := hx
    have h4096 : flashSectorSize = 4096 := rfl
    show FlashDriver.journalAddress i + x < _
    omega

/-- A command in a journal sector while there is a current record. -/
def Keeping : CommandRel := fun c m _ => c.InJournal ∧ ∃ j, Current m j

/-- How a commit of `r` ends, whatever fails: nothing but the journal changes, the current record
    stays or makes way for the next one, and success means that it did. -/
structure Ends (r : BootUpdateJournal) (m : Nat → Byte) (res : Option BootUpdateJournal)
    (m' : Nat → Byte) : Prop where
  outside : ∀ a, a < journalCopy0Address ∨ metadataSlotACopy0Address ≤ a → m' a = m a
  kept : ∀ j, Current m j → Current m' j ∨ Current m' (completed (j.sequence + 1) r)
  done : ∀ n, res = some n → ∃ j, Current m j ∧ n = completed (j.sequence + 1) r ∧ Current m' n

theorem Ends.refused (r : BootUpdateJournal) (m : Nat → Byte) : Ends r m none m :=
  ⟨fun _ _ => rfl, fun _ hj => .inl hj, fun _ hn => by cases hn⟩

variable {b : Board} {k : Fin 2} {j r : BootUpdateJournal}

/-- Each command of a commit finds the old record current. -/
theorem current_of_writeStep {c : Command} {m m' : Nat → Byte} (hl : loadLatest b.mem = .valid k j)
    (hwf : WellFormed r)
    (h : WriteStep (1 - k) (completed (j.sequence + 1) r) b.mem c m m') : Current m j :=
  ⟨k, (h.register recordFormat_size_le hl rfl (validate_completed _ hwf)).2⟩

theorem keeping_of_writeStep {c : Command} {m m' : Nat → Byte} (hl : loadLatest b.mem = .valid k j)
    (hwf : WellFormed r)
    (h : WriteStep (1 - k) (completed (j.sequence + 1) r) b.mem c m m') : Keeping c m m' :=
  ⟨⟨1 - k, h.range recordFormat_size_le⟩, j, current_of_writeStep hl hwf h⟩

/-- The selection at each stage of a commit. -/
theorem current_of_stage {m : Nat → Byte} (hl : loadLatest b.mem = .valid k j) (hwf : WellFormed r)
    (h : Stage (1 - k) (completed (j.sequence + 1) r) b.mem m) :
    Current m j ∨ Current m (completed (j.sequence + 1) r) := by
  rcases h with rfl | ⟨p, hp, hw⟩
  · exact .inl ⟨k, hl⟩
  · have hreg := hw.register recordFormat_size_le hl rfl (validate_completed _ hwf) hp
    rcases Nat.lt_or_eq_of_le hp with hlt | heq
    · exact .inl ⟨k, (hreg.1 hlt).1⟩
    · exact .inr ⟨_, (hreg.2 heq).1⟩

theorem outside_of_stage {m : Nat → Byte} {n : BootUpdateJournal} (h : Stage k n b.mem m) :
    ∀ a, a < journalCopy0Address ∨ metadataSlotACopy0Address ≤ a → m a = b.mem a := by
  intro a ha
  rcases h with rfl | ⟨p, -, hw⟩
  · rfl
  · refine hw.outside a ?_
    have hk := View.journalAddress_range k
    show a < FlashDriver.journalAddress k ∨ FlashDriver.journalAddress k + flashSectorSize ≤ a
    omega

/-- `BootJournal_Commit`, whatever fails. -/
theorem issues_commit :
    Issues Keeping (commit r) (fun res b' => ∃ d, b' = b.setDev d ∧ Ends r b.mem res d.mem) b := by
  have hnone : ∀ {m : BootM (Option BootUpdateJournal)},
      wp m (fun res b' => res = none ∧ b' = b) (fun _ => False) b →
      Issues Keeping m (fun res b' => ∃ d, b' = b.setDev d ∧ Ends r b.mem res d.mem) b := by
    intro m hm
    refine wp_mono hm ?_ fun _ h => h.elim
    rintro res b' ⟨rfl, rfl⟩
    exact ⟨.refl _, b'.dev, rfl, .refused r _⟩
  by_cases hwf : WellFormed r
  swap
  · exact hnone (wp_commit_refused (.inl hwf) ⟨rfl, rfl⟩)
  cases hl : loadLatest b.mem with
  | empty => exact hnone (wp_commit_refused (.inr fun k j h => by rw [hl] at h; cases h) ⟨rfl, rfl⟩)
  | invalid =>
    exact hnone (wp_commit_refused (.inr fun k j h => by rw [hl] at h; cases h) ⟨rfl, rfl⟩)
  | valid k j =>
    have hmono : ∀ d, Evolves (WriteStep (1 - k) (completed (j.sequence + 1) r) b.mem) b.dev d →
        Evolves Keeping b.dev d :=
      fun d hev => hev.mono fun c m m' h => keeping_of_writeStep hl hwf h
    by_cases hready : b.ram.flash.ready = true
    swap
    · refine hnone ?_
      unfold commit commitRecord
      rw [wp_bind, BootM.wp_flash, hl]
      dsimp only
      rw [if_neg (by decide)]
      exact writeCopy_unready (BootJournalStorage.erase_unready (by simpa using hready)) ⟨rfl, rfl⟩
    refine wp_mono (wp_commit hready hl hwf) ?_ fun b' h => hmono _ h.1
    rintro res b' ⟨d, rfl, hw⟩
    refine ⟨hmono d hw.evolves, d, rfl, outside_of_stage hw.stage, fun j' hj' => ?_, fun n hn => ?_⟩
    · obtain rfl := hj'.unique ⟨k, hl⟩
      exact current_of_stage hl hwf hw.stage
    · obtain ⟨rfl, hload, -⟩ := hw.stored n hn
      exact ⟨j, ⟨k, hl⟩, rfl, _, hload⟩

end BootJournal

namespace BootUpdate

open BootJournal (Current Keeping)

variable {b b' : Board} {next : BootUpdateJournal}

/-- The board with another device and other variables of `boot_update.c`. -/
def withUpdate (b : Board) (d : Device Note) (u : State) : Board :=
  { b.setDev d with ram := { b.ram with update := u } }

/-- How the functions that save a record end, whatever fails: nothing but the journal changes, and a
    journal with a current record keeps one. -/
structure Stored (b : Board) (d : Device Note) (u : State) : Prop where
  outside : ∀ a, a < journalCopy0Address ∨ metadataSlotACopy0Address ≤ a → d.mem a = b.mem a
  kept : (∃ j, Current b.mem j) → ∃ j, Current d.mem j
  valid : u.journalValid = b.ram.update.journalValid

theorem Stored.same {u : State} (h : u.journalValid = b.ram.update.journalValid) :
    Stored b b.dev u :=
  ⟨fun _ _ => rfl, id, h⟩

theorem Stored.trans {d d' : Device Note} {u u' : State} (h : Stored b d u)
    (h' : Stored (withUpdate b d u) d' u') : Stored b d' u' :=
  ⟨fun a ha => (h'.outside a ha).trans (h.outside a ha), fun hj => h'.kept (h.kept hj),
    h'.valid.trans h.valid⟩

/-- What success of a save means. -/
structure Persisted (next : BootUpdateJournal) (d : Device Note) (u : State) : Prop where
  can : canContinue u = true
  current : ∃ sequence, u.current = BootJournal.completed sequence next
  durable : Current d.mem u.current

/-- `save`, whatever fails. -/
theorem issues_save :
    Issues Keeping (save next)
      (fun ok b' => ∃ d u, b' = withUpdate b d u ∧ Stored b d u ∧
        (ok = true → Persisted next d u) ∧
        (ok = false → canContinue u = false ∧ u.current = b.ram.update.current)) b := by
  unfold save
  rw [Issues.bind_getRam]
  refine .ite (fun hc => .pure ⟨b.dev, b.ram.update, rfl, .same rfl, fun h => (by cases h),
    fun _ => ⟨?_, rfl⟩⟩) fun hc => ?_
  · rw [Bool.or_eq_true, Bool.not_eq_true'] at hc
    rcases hc with hc | hc <;> simp [canContinue, hc]
  have hcan : canContinue b.ram.update = true := by
    rw [Bool.or_eq_true, Bool.not_eq_true', not_or, Bool.not_eq_true, Bool.not_eq_false] at hc
    simp [canContinue, hc.1, hc.2]
  refine BootJournal.issues_commit.bind ?_
  rintro res b' ⟨d, rfl, hends⟩
  have hkept : (∃ j, Current b.mem j) → ∃ j, Current d.mem j := by
    rintro ⟨j, hj⟩
    rcases hends.kept j hj with h | h
    · exact ⟨j, h⟩
    · exact ⟨_, h⟩
  cases res with
  | none =>
    dsimp only
    rw [Issues.bind_setUpdate]
    refine .pure ⟨d, { b.ram.update with storageFault := true }, rfl, ⟨hends.outside, hkept, rfl⟩,
      fun h => (by cases h), fun _ => ⟨?_, rfl⟩⟩
    simp [canContinue]
  | some n =>
    obtain ⟨j, -, rfl, hn⟩ := hends.done n rfl
    dsimp only
    rw [Issues.bind_setUpdate]
    exact .pure ⟨d, { b.ram.update with current := BootJournal.completed (j.sequence + 1) next },
      rfl, ⟨hends.outside, hkept, rfl⟩, fun _ => ⟨hcan, ⟨_, rfl⟩, hn⟩, fun h => (by cases h)⟩

/-- A function that refuses or saves. -/
theorem issues_save_or_refuse {c : Prop} [Decidable c] :
    Issues Keeping (if c then return false else save next)
      (fun ok b' => ∃ d u, b' = withUpdate b d u ∧ Stored b d u ∧
        (ok = true → ¬ c ∧ Persisted next d u) ∧
        (ok = false → (d = b.dev ∧ u = b.ram.update) ∨ canContinue u = false)) b := by
  refine .ite (fun _ => .pure ⟨b.dev, b.ram.update, rfl, .same rfl, fun h => (by cases h),
    fun _ => .inl ⟨rfl, rfl⟩⟩) fun hc => issues_save.mono ?_
  rintro ok b' ⟨d, u, rfl, hs, hok, hno⟩
  exact ⟨d, u, rfl, hs, fun h => ⟨hc, hok h⟩, fun h => .inr (hno h).1⟩

theorem issues_setState {q : BootUpdateState} :
    Issues Keeping (setState q)
      (fun ok b' => ∃ d u, b' = withUpdate b d u ∧ Stored b d u ∧
        (ok = true → transitionAllowed b.ram.update.current.state q.code = true ∧
          Persisted { b.ram.update.current with state := q.code } d u) ∧
        (ok = false → (d = b.dev ∧ u = b.ram.update) ∨ canContinue u = false)) b := by
  unfold setState
  rw [Issues.bind_getRam]
  refine issues_save_or_refuse.mono ?_
  rintro ok b' ⟨d, u, rfl, hs, hok, hno⟩
  exact ⟨d, u, rfl, hs, fun h => ⟨by simpa using (hok h).1, (hok h).2⟩, hno⟩

theorem issues_completeActivationHandoff :
    Issues Keeping completeActivationHandoff
      (fun _ b' => ∃ d u, b' = withUpdate b d u ∧ Stored b d u) b := by
  unfold completeActivationHandoff
  rw [Issues.bind_getRam]
  refine issues_save_or_refuse.mono ?_
  rintro ok b' ⟨d, u, rfl, hs, -⟩
  exact ⟨d, u, rfl, hs⟩

theorem issues_abort {reason : BootUpdateResult} :
    Issues Keeping (abort reason)
      (fun ok b' => ∃ d u, b' = withUpdate b d u ∧ Stored b d u ∧
        (ok = true → Persisted { b.ram.update.current with
          state := BootUpdateState.aborted.code, lastResult := reason.code } d u) ∧
        (ok = false → (d = b.dev ∧ u = { b.ram.update with targetRevalidated := false }) ∨
          canContinue u = false)) b := by
  unfold abort
  rw [Issues.bind_setUpdate, Issues.bind_getRam]
  refine issues_save_or_refuse.mono ?_
  rintro ok b' ⟨d, u, rfl, hs, hok, hno⟩
  exact ⟨d, u, rfl, ⟨hs.outside, hs.kept, hs.valid⟩, fun h => (hok h).2, hno⟩

theorem issues_markTransferComplete {header : BootImageHeader} {sequence : Byte} :
    Issues Keeping (markTransferComplete header sequence)
      (fun ok b' => ∃ d u, b' = withUpdate b d u ∧ Stored b d u ∧
        (ok = true → canContinue u = true ∧ Current d.mem u.current ∧
          u.current.activeSlot = b.ram.update.current.activeSlot ∧
          u.current.targetSlot = b.ram.update.current.targetSlot) ∧
        (ok = false → (d = b.dev ∧ u = b.ram.update) ∨ canContinue u = false)) b := by
  unfold markTransferComplete
  rw [Issues.bind_getRam]
  refine issues_save_or_refuse.mono ?_
  rintro ok b' ⟨d, u, rfl, hs, hok, hno⟩
  refine ⟨d, u, rfl, hs, fun h => ?_, hno⟩
  obtain ⟨-, hp⟩ := hok h
  obtain ⟨n, hn⟩ := hp.current
  exact ⟨hp.can, hp.durable, by rw [hn]; rfl, by rw [hn]; rfl⟩

/-- `BootUpdate_SetProgress` goes on in state PROGRAMMING with the slots of the transaction. -/
theorem issues_setProgress {programmed : Nat} {sequence : Byte} :
    Issues Keeping (setProgress programmed sequence)
      (fun ok b' => ∃ d u, b' = withUpdate b d u ∧ Stored b d u ∧
        (ok = true → (d = b.dev ∧ u = b.ram.update) ∨
          (canContinue u = true ∧ Current d.mem u.current ∧
            u.current.state = BootUpdateState.programming.code ∧
            u.current.activeSlot = b.ram.update.current.activeSlot ∧
            u.current.targetSlot = b.ram.update.current.targetSlot))) b := by
  have hsame : ∀ {ok : Bool}, Issues Keeping (pure ok) (fun ok b' => ∃ d u,
      b' = withUpdate b d u ∧ Stored b d u ∧ (ok = true → (d = b.dev ∧ u = b.ram.update) ∨
        (canContinue u = true ∧ Current d.mem u.current ∧
          u.current.state = BootUpdateState.programming.code ∧
          u.current.activeSlot = b.ram.update.current.activeSlot ∧
          u.current.targetSlot = b.ram.update.current.targetSlot))) b :=
    .pure ⟨b.dev, b.ram.update, rfl, .same rfl, fun _ => .inl ⟨rfl, rfl⟩⟩
  unfold setProgress
  rw [Issues.bind_getRam]
  dsimp only
  refine .ite (fun _ => hsame) fun hgo => .ite (fun _ => hsame) fun _ => ?_
  have hst : b.ram.update.current.state = BootUpdateState.programming.code := by
    simp only [Bool.or_eq_true, not_or, bne_iff_ne, ne_eq, not_not] at hgo
    exact hgo.1.2
  refine issues_save.mono ?_
  rintro ok b' ⟨d, u, rfl, hs, hok, -⟩
  refine ⟨d, u, rfl, hs, fun h => .inr ?_⟩
  have hp := hok h
  obtain ⟨n, hn⟩ := hp.current
  exact ⟨hp.can, hp.durable, by rw [hn]; exact hst, by rw [hn]; rfl, by rw [hn]; rfl⟩

/-- `BootUpdate_Begin` records the slots it was called with. -/
theorem issues_beginUpdate {active target : SlotId} {size : Nat} :
    Issues Keeping (beginUpdate active target size)
      (fun ok b' => ∃ d u, b' = withUpdate b d u ∧ Stored b d u ∧
        (ok = true → canContinue u = true ∧ Current d.mem u.current ∧
          u.current.activeSlot = SlotId.code active ∧
          u.current.targetSlot = SlotId.code target)) b := by
  unfold beginUpdate
  rw [Issues.bind_getRam]
  refine .ite (fun _ => .pure ⟨b.dev, b.ram.update, rfl, .same rfl, fun h => (by cases h)⟩)
    fun _ => issues_save.bind ?_
  rintro ok b' ⟨d, u, rfl, hs, hok, -⟩
  refine .ite (fun _ => .pure ⟨d, u, rfl, hs, fun h => (by cases h)⟩) fun hsaved => ?_
  rw [Issues.bind_setUpdate]
  have hp := hok (by simpa using hsaved)
  obtain ⟨n, hn⟩ := hp.current
  exact .pure ⟨d, { u with targetRevalidated := false }, rfl, ⟨hs.outside, hs.kept, hs.valid⟩,
    fun _ => ⟨hp.can, hp.durable, by rw [hn]; rfl, by rw [hn]; rfl⟩⟩

theorem issues_markPending {c : Bool} :
    Issues Keeping (markPending c)
      (fun ok b' => ∃ d u, b' = withUpdate b d u ∧ Stored b d u ∧
        (ok = true → canContinue u = true ∧ Current d.mem u.current ∧
          u.current.state = BootUpdateState.pendingActivation.code) ∧
        (ok = false → (d = b.dev ∧ u = b.ram.update ∧
          u.current.state ≠ BootUpdateState.verified.code) ∨ canContinue u = false)) b := by
  unfold markPending
  rw [Issues.bind_getRam]
  refine .ite (fun hc => .pure ⟨b.dev, b.ram.update, rfl, .same rfl, fun h => (by cases h),
    fun _ => .inl ⟨rfl, rfl, by simpa using hc⟩⟩) fun _ => issues_save.bind ?_
  rintro ok b' ⟨d, u, rfl, hs, hok, hno⟩
  refine .ite (fun hf => .pure ⟨d, u, rfl, hs, fun h => (by cases h),
    fun _ => .inr (hno (by simpa using hf)).1⟩) fun hsaved => ?_
  rw [Issues.bind_setUpdate]
  have hp := hok (by simpa using hsaved)
  obtain ⟨n, hn⟩ := hp.current
  exact .pure ⟨d, { u with targetRevalidated := true }, rfl, ⟨hs.outside, hs.kept, hs.valid⟩,
    fun _ => ⟨hp.can, hp.durable, by rw [hn]; rfl⟩, fun h => (by cases h)⟩

theorem issues_markVerified {c : Bool} :
    Issues Keeping (markVerified c)
      (fun ok b' => ∃ d u, b' = withUpdate b d u ∧ Stored b d u ∧
        (ok = true → canContinue u = true ∧ Current d.mem u.current ∧
          u.current.state = BootUpdateState.pendingActivation.code) ∧
        (ok = false → (d = b.dev ∧ u = b.ram.update) ∨ canContinue u = false)) b := by
  unfold markVerified
  rw [Issues.bind_getRam]
  refine .ite (fun _ => issues_setState.bind ?_) fun _ => issues_markPending.mono ?_
  · rintro ok b' ⟨d, u, rfl, hs, hok, hno⟩
    refine .ite (fun hf => .pure ⟨d, u, rfl, hs, fun h => (by cases h),
      fun _ => hno (by simpa using hf)⟩) fun hsaved => ?_
    obtain ⟨-, hp⟩ := hok (by simpa using hsaved)
    obtain ⟨n, hn⟩ := hp.current
    refine issues_markPending.mono ?_
    rintro ok b'' ⟨d', u', rfl, hs', hok', hno'⟩
    refine ⟨d', u', rfl, hs.trans hs', hok', fun h => .inr ((hno' h).resolve_left ?_)⟩
    -- the state is VERIFIED by now
    rintro ⟨-, hu, hst⟩
    refine hst ?_
    rw [hu]
    show u.current.state = _
    rw [hn]
    rfl
  · rintro ok b' ⟨d, u, rfl, hs, hok, hno⟩
    exact ⟨d, u, rfl, hs, hok, fun h => (hno h).imp_left fun h => ⟨h.1, h.2.1⟩⟩

end BootUpdate

/-! ## Stores without regard to what they hold -/

section

variable {b : Board}

/-- A write of one copy stays in its sector, whatever fails. -/
theorem TwoCopy.issues_writeCopy {R : Type} {F : Format R} {P : Port Board Note} {k : Fin 2}
    {next : R} (hdev : P.dev = Board.dev) (hset : P.setDev = Board.setDev)
    (hlimit : F.size ≤ P.limit) (hphrase : P.phrase ∣ F.size)
    (hunready : ¬ P.ready b → wp (P.erase k) (fun ok b' => ok = false ∧ b' = b) (fun _ => False) b) :
    Issues (fun c _ _ => P.base k ≤ c.address ∧ c.address + c.size ≤ P.base k + P.sector)
      (writeCopy F P k next)
      (fun _ b' => ∃ d, b' = b.setDev d ∧ SameOutside (P.base k) P.sector b.mem d.mem) b := by
  have hsec : F.size ≤ P.sector := le_trans hlimit P.limit_le
  have hrefused : wp (writeCopy F P k next) (fun res b' => res = none ∧ b' = b) (fun _ => False) b →
      Issues (fun c _ _ => P.base k ≤ c.address ∧ c.address + c.size ≤ P.base k + P.sector)
        (writeCopy F P k next)
        (fun _ b' => ∃ d, b' = b.setDev d ∧ SameOutside (P.base k) P.sector b.mem d.mem) b := by
    intro h
    refine wp_mono h ?_ fun _ h => h.elim
    rintro res b' ⟨-, rfl⟩
    exact ⟨.refl _, b'.dev, rfl, .refl _ _ _⟩
  by_cases hready : P.ready b
  swap
  · exact hrefused (writeCopy_unready (hunready hready) ⟨rfl, rfl⟩)
  by_cases hv : F.valid next = true
  swap
  · exact hrefused (writeCopy_invalid (by simpa using hv) ⟨rfl, rfl⟩)
  have hrun : ∀ d', WriteRun P F k next (P.dev b) d' →
      Evolves (fun c _ _ => P.base k ≤ c.address ∧ c.address + c.size ≤ P.base k + P.sector)
        b.dev d' ∧ SameOutside (P.base k) P.sector b.mem d'.mem := by
    intro d' h
    rw [hdev] at h
    refine ⟨h.evolves.mono fun c m m' hstep => hstep.range hsec, ?_⟩
    rcases h.stage with hsame | ⟨p, -, hw⟩
    · rw [hsame]
      exact .refl _ _ _
    · exact hw.outside
  refine wp_mono (wp_writeCopy hlimit hphrase hready hv) ?_ ?_
  · rintro res b' ⟨d', rfl, h, -⟩
    obtain ⟨hev, hout⟩ := hrun d' h
    rw [hset]
    exact ⟨hev, d', rfl, hout⟩
  · rintro b' ⟨h, -⟩
    rw [hdev] at h
    exact (hrun b'.dev (by rw [hdev]; exact h)).1

/-- `BootJournal_Initialize`, whatever fails. -/
theorem BootJournal.issues_initializeStore {r : BootUpdateJournal} :
    Issues (fun c _ _ => c.InJournal) (initializeStore r)
      (fun res b' => ∃ d, b' = b.setDev d ∧
        (∀ a, a < journalCopy0Address ∨ metadataSlotACopy0Address ≤ a → d.mem a = b.mem a) ∧
        ((∃ j, Current b.mem j) → res = none ∧ d = b.dev)) b := by
  have hk := View.journalAddress_range 0
  have hwrite : (∀ j, ¬ Current b.mem j) → Issues (fun c _ _ => c.InJournal)
      (writeCopy recordFormat BootJournalStorage.port 0 (completed 1 r))
      (fun res b' => ∃ d, b' = b.setDev d ∧
        (∀ a, a < journalCopy0Address ∨ metadataSlotACopy0Address ≤ a → d.mem a = b.mem a) ∧
        ((∃ j, Current b.mem j) → res = none ∧ d = b.dev)) b := by
    intro hno
    refine ((issues_writeCopy (P := BootJournalStorage.port) (F := recordFormat) rfl rfl (le_refl _)
      (by decide) fun hready => BootJournalStorage.erase_unready
        (Bool.eq_false_of_not_eq_true hready)).weaken fun c _ _ hc => ⟨0, hc⟩).mono ?_
    rintro res b' ⟨d, rfl, hout⟩
    refine ⟨d, rfl, fun a ha => hout a ?_, fun ⟨j, hj⟩ => absurd hj (hno j)⟩
    show a < FlashDriver.journalAddress 0 ∨ FlashDriver.journalAddress 0 + flashSectorSize ≤ a
    omega
  unfold initializeStore commitRecord
  rw [Issues.bind_flash]
  cases hl : loadLatest b.mem with
  | valid k j =>
    dsimp only
    rw [if_pos rfl]
    exact .pure ⟨b.dev, rfl, fun _ _ => rfl, fun _ => ⟨rfl, rfl⟩⟩
  | empty =>
    dsimp only
    rw [if_neg (by decide)]
    refine hwrite ?_
    rintro j ⟨k, hk⟩
    rw [hl] at hk
    cases hk
  | invalid =>
    dsimp only
    rw [if_neg (by decide)]
    refine hwrite ?_
    rintro j ⟨k, hk⟩
    rw [hl] at hk
    cases hk

namespace BootMetadata

variable {slot : Slot}

/-- What the functions of `boot_metadata.c` leave: nothing but the metadata sectors changes. -/
def Outside (b b' : Board) : Prop :=
  ∃ d, b' = b.setDev d ∧ ∀ a, a < metadataSlotACopy0Address ∨ BootFlash.recordsEnd ≤ a →
    d.mem a = b.mem a

theorem Outside.same : Outside b b := ⟨b.dev, rfl, fun _ _ => rfl⟩

theorem issues_writeRecord {r : BootSlotMetadata} {expected : BootMetadataStatus} {p : Bool} :
    Issues (fun c _ _ => c.InMetadata) (writeRecord slot r expected p) (fun _ => Outside b) b := by
  have hwrite : ∀ k next, Issues (fun c _ _ => c.InMetadata)
      (writeCopy (recordFormat slot) (BootMetadataStorage.port slot) k next)
      (fun _ => Outside b) b := by
    intro k next
    have hk := View.metadataAddress_range slot k
    refine ((issues_writeCopy (P := BootMetadataStorage.port slot) (F := recordFormat slot) rfl rfl
      (le_refl _) (show flashPhraseSize ∣ metadataRecordSize by decide) fun hready =>
        BootMetadataStorage.erase_unready (Bool.eq_false_of_not_eq_true hready)).weaken
      fun c _ _ hc => ⟨slot, k, hc⟩).mono ?_
    rintro res b' ⟨d, rfl, hout⟩
    refine ⟨d, rfl, fun a ha => hout a ?_⟩
    show a < FlashDriver.metadataAddress slot k ∨
      FlashDriver.metadataAddress slot k + flashSectorSize ≤ a
    omega
  unfold writeRecord
  rw [Issues.bind_flash]
  dsimp only
  refine .ite (fun _ => .pure .same) fun _ => ?_
  cases load slot b.mem with
  | valid k old => exact .ite (fun _ => .pure .same) fun _ => hwrite _ _
  | empty => exact .ite (fun _ => .pure .same) fun _ => hwrite _ _
  | invalid => exact .ite (fun _ => .pure .same) fun _ => hwrite _ _

theorem issues_isSome {r : BootSlotMetadata} {expected : BootMetadataStatus} {p : Bool} :
    Issues (fun c _ _ => c.InMetadata)
      (do return (← writeRecord slot r expected p).isSome) (fun _ => Outside b) b :=
  issues_writeRecord.bind fun _ _ h => .pure h

theorem issues_initializeStore {r : BootSlotMetadata} :
    Issues (fun c _ _ => c.InMetadata) (initializeStore slot r) (fun _ => Outside b) b := by
  unfold initializeStore
  rw [Issues.bind_flash]
  exact .ite (fun _ => .pure .same) fun _ => issues_writeRecord

theorem issues_installVerified {version counter reason : Word} :
    Issues (fun c _ _ => c.InMetadata) (installVerified slot version counter reason)
      (fun _ => Outside b) b := by
  unfold installVerified
  rw [Issues.bind_flash]
  cases load slot b.mem with
  | valid k old => exact .ite (fun _ => .pure .same) fun _ => issues_isSome
  | empty => exact issues_isSome
  | invalid => exact issues_isSome

theorem issues_setState {state : BootImageState} {reason result : Word} :
    Issues (fun c _ _ => c.InMetadata) (setState slot state reason result) (fun _ => Outside b)
      b := by
  unfold setState
  rw [Issues.bind_flash]
  cases load slot b.mem with
  | valid k old => exact .ite (fun _ => .pure .same) fun _ => issues_isSome
  | empty => exact .pure .same
  | invalid => exact .pure .same

theorem issues_incrementAttempt {reason : Word} :
    Issues (fun c _ _ => c.InMetadata) (incrementAttempt slot reason) (fun _ => Outside b) b := by
  unfold incrementAttempt
  rw [Issues.bind_flash]
  cases load slot b.mem with
  | valid k old => exact .ite (fun _ => .pure .same) fun _ => issues_isSome
  | empty => exact .pure .same
  | invalid => exact .pure .same

end BootMetadata

end

/-! ## A slot without regard to what it holds -/

section

variable {R : CommandRel} {b : Board} {address size : Nat}

theorem FlashDriver.issues_verify {data : Nat → Byte} :
    Issues R (FlashDriver.verify address data size) (fun _ b' => b' = b) b := by
  unfold FlashDriver.verify
  rw [Issues.bind_getRam]
  refine .ite (fun _ => .pure rfl) fun _ => ?_
  rw [Issues.bind_flash]
  exact .pure rfl

/-- The phrases of a program call, each of them inside the range. -/
theorem FlashDriver.issues_programLoop {data : Nat → Byte}
    (hR : ∀ m n offset phrase, SameOutside address size b.mem m →
      offset % flashPhraseSize = 0 → offset + flashPhraseSize ≤ size →
      R (.program (address + offset) flashPhraseSize phrase) m
        ((Command.program (address + offset) flashPhraseSize phrase).effect n m))
    {offset n : Nat} (hoffset : offset % flashPhraseSize = 0)
    (hn : offset + flashPhraseSize * n ≤ size) :
    Issues R (FlashDriver.programLoop address data offset n)
      (fun _ b' => ∃ d, b' = b.setDev d ∧ SameOutside address size b.mem d.mem) b := by
  induction n generalizing b offset with
  | zero => exact .pure ⟨b.dev, rfl, .refl _ _ _⟩
  | succ n ih =>
    rw [Nat.mul_succ] at hn
    have hphrase : ∀ k m, SameOutside address size m ((Command.program (address + offset)
        flashPhraseSize fun i => data (offset + i)).effect k m) := by
      intro k m
      refine (sameOutside_effect _ k m).mono (Nat.le_add_right _ _) ?_
      simp only [Command.address, Command.size]
      omega
    unfold FlashDriver.programLoop
    refine Issues.bind (Q := fun _ b' => ∃ d, b' = b.setDev d ∧
      SameOutside address size b.mem d.mem) ?_ ?_
    · unfold FlashDriver.programPhrase
      refine .ite (fun _ => .pure ⟨b.dev, rfl, .refl _ _ _⟩) fun _ => ?_
      refine (Issues.issue fun k => hR _ _ _ _ (.refl _ _ _) hoffset (by omega)).mono ?_
      rintro ok b' ⟨k, rfl⟩
      exact ⟨_, rfl, hphrase k _⟩
    · rintro ok b' ⟨d, rfl, hd⟩
      refine .ite (fun _ => .pure ⟨d, rfl, hd⟩) fun _ => ?_
      refine FlashDriver.issues_verify.bind ?_
      rintro ok' b' rfl
      refine .ite (fun _ => .pure ⟨d, rfl, hd⟩) fun _ => ?_
      refine (ih (b := b.setDev d) (fun m k o p hm => hR m k o p (hd.trans hm)) ?_
        (by omega)).mono ?_
      · rw [Nat.add_mod_right]
        exact hoffset
      rintro ok'' b' ⟨d', rfl, hd'⟩
      exact ⟨d', rfl, hd.trans hd'⟩

/-- `FlashDriver_Program`: its range lies in the window. -/
theorem FlashDriver.issues_program {data : Nat → Byte}
    (hR : ∀ m n offset phrase, SameOutside address size b.mem m →
      FlashDriver.rangeOk b.ram.flash address size = true → address % flashPhraseSize = 0 →
      offset % flashPhraseSize = 0 → offset + flashPhraseSize ≤ size →
      R (.program (address + offset) flashPhraseSize phrase) m
        ((Command.program (address + offset) flashPhraseSize phrase).effect n m)) :
    Issues R (FlashDriver.program address data size)
      (fun _ b' => ∃ d, b' = b.setDev d ∧ SameOutside address size b.mem d.mem) b := by
  unfold FlashDriver.program
  rw [Issues.bind_getRam]
  refine .ite (fun _ => .pure ⟨b.dev, rfl, .refl _ _ _⟩) fun hc => ?_
  simp only [Bool.or_eq_true, not_or, Bool.not_eq_true', Bool.not_eq_false, bne_iff_ne, ne_eq,
    not_not] at hc
  refine FlashDriver.issues_programLoop (fun m n o p hm ho => hR m n o p hm hc.1.1 hc.1.2 ho)
    (Nat.zero_mod _) ?_
  rw [Nat.zero_add]
  exact Nat.mul_div_le _ _

/-- `FlashDriver_Erase`: one sector in the window. -/
theorem FlashDriver.issues_erase
    (hR : ∀ n, FlashDriver.rangeOk b.ram.flash address size = true → size = flashSectorSize →
      address % flashSectorSize = 0 →
      R (.erase address size) b.mem ((Command.erase address size).effect n b.mem)) :
    Issues R (FlashDriver.erase address size)
      (fun _ b' => ∃ d, b' = b.setDev d ∧ SameOutside address size b.mem d.mem) b := by
  unfold FlashDriver.erase
  rw [Issues.bind_getRam]
  refine .ite (fun _ => .pure ⟨b.dev, rfl, .refl _ _ _⟩) fun hc => ?_
  simp only [Bool.or_eq_true, not_or, Bool.not_eq_true', Bool.not_eq_false, bne_iff_ne, ne_eq,
    not_not] at hc
  refine (Issues.issue fun n => hR n hc.1.1 hc.1.2 hc.2).bind ?_
  rintro ok b' ⟨n, rfl⟩
  have hout : SameOutside address size b.mem ((Command.erase address size).effect n b.mem) :=
    sameOutside_effect (.erase address size) n _
  refine .ite (fun _ => .pure ⟨_, rfl, hout⟩) fun _ => ?_
  rw [Issues.bind_flash]
  exact .pure ⟨_, rfl, hout⟩

/-- `BootFlash_Erase`, whatever fails. -/
theorem BootFlash.issues_erase
    (hR : ∀ n, BootFlash.isRangeValid b.ram.flash address size = true →
      R (.erase address size) b.mem ((Command.erase address size).effect n b.mem)) :
    Issues R (BootFlash.erase address size)
      (fun _ b' => ∃ d, b' = b.setDev d ∧ SameOutside address size b.mem d.mem) b := by
  unfold BootFlash.erase
  rw [Issues.bind_getRam]
  refine .ite (fun _ => .pure ⟨b.dev, rfl, .refl _ _ _⟩) fun hc => ?_
  simp only [Bool.or_eq_true, not_or, Bool.not_eq_true', Bool.not_eq_false] at hc
  exact FlashDriver.issues_erase fun n _ _ _ => hR n hc.1.1.2

/-- `BootFlash_Program`, whatever fails. -/
theorem BootFlash.issues_program {data : Nat → Byte}
    (hR : ∀ m n offset phrase, SameOutside address size b.mem m →
      BootFlash.isRangeValid b.ram.flash address size = true → offset + flashPhraseSize ≤ size →
      R (.program (address + offset) flashPhraseSize phrase) m
        ((Command.program (address + offset) flashPhraseSize phrase).effect n m)) :
    Issues R (BootFlash.program address data size)
      (fun _ b' => ∃ d, b' = b.setDev d ∧ SameOutside address size b.mem d.mem) b := by
  unfold BootFlash.program
  rw [Issues.bind_getRam]
  refine .ite (fun _ => .pure ⟨b.dev, rfl, .refl _ _ _⟩) fun hc => ?_
  simp only [Bool.or_eq_true, not_or, Bool.not_eq_true', Bool.not_eq_false] at hc
  exact FlashDriver.issues_program fun m n o p hm _ _ _ ho => hR m n o p hm hc.1.1.2 ho

end
