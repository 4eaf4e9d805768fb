import BootloaderV2.BootSpec
import BootloaderV2.Programming

/-!
# What the programming server does to the durable state

`Serves act` lists the steps of a server that takes `act` for the active slot: the records of a
transaction, writes to its target slot, and the commissioning of a journal.  They keep the durable
state consistent.
-/

open BootConfig NorFlash CrashM TwoCopy

/-- The states that `BootUpdate_SetState` takes the server through. -/
def ServerAdvance (p q : BootUpdateState) : Prop :=
  (p, q) ∈ [(BootUpdateState.preparing, BootUpdateState.erasing), (.erasing, .downloadReady),
    (.downloadReady, .programming), (.transferComplete, .verifying)]

/-- The states of a transaction that is not verified yet. -/
def Unverified (p : BootUpdateState) : Prop := p ≠ .idle ∧ p ≠ .pendingActivation ∧ p ≠ .aborted

/-- The records the server commits to the journal after `j`. -/
inductive ServerCommit (act : SlotId) (d : Durable) (j : BootUpdateJournal) :
    BootUpdateJournal → Prop where
  | begin (t : Slot) (hst : j.state = BootUpdateState.idle.code ∨
      j.state = BootUpdateState.aborted.code ∨ j.state = BootUpdateState.pendingActivation.code)
    (hlink : j.state ≠ BootUpdateState.idle.code → j.active = act) (ht : act ≠ some t)
    (hconf : ∀ s, act = some s →
      ∃ r, d.metadata s = .record r ∧ r.state = BootImageState.confirmed.code)
    (hnone : act = none → j.active = none ∧ ∀ s r, d.metadata s ≠ .record r) :
    ServerCommit act d j (BootUpdate.beginRecord j act (some t) slotSize)
  | advance (p q : BootUpdateState) (hst : j.state = p.code) (h : ServerAdvance p q) :
    ServerCommit act d j { j with state := q.code }
  | progress (size sequence : Word) (hst : j.state = BootUpdateState.programming.code) :
    ServerCommit act d j { j with committedSize := size, lastBlockSequence := sequence }
  | complete (header : BootImageHeader) (sequence : Word)
    (hst : j.state = BootUpdateState.programming.code) :
    ServerCommit act d j { j with
      cachedHeader := header
      flags := BootJournal.headerKnown
      targetVersion := header.softwareVersion
      expectedCrc := header.imageCrc32
      committedSize := j.expectedSize
      lastBlockSequence := sequence
      state := BootUpdateState.transferComplete.code }
  | verified (hst : j.state = BootUpdateState.verifying.code) (ha : d.Accepts j) :
    ServerCommit act d j { j with state := BootUpdateState.verified.code }
  | pending (hst : j.state = BootUpdateState.verified.code) :
    ServerCommit act d j { j with
      state := BootUpdateState.pendingActivation.code
      lastResult := BootUpdateResult.success.code }
  | abort (p : BootUpdateState) (reason : BootUpdateResult) (hst : j.state = p.code)
    (h : Unverified p) :
    ServerCommit act d j { j with
      state := BootUpdateState.aborted.code
      lastResult := reason.code }

/-- One step of the server. -/
inductive Serves (act : SlotId) (d : Durable) : Durable → Prop where
  | commit (j next : BootUpdateJournal) (hj : d.journal = .record j)
    (h : ServerCommit act d j next) :
    Serves act d (d.setJournal (BootJournal.completed (j.sequence + 1) next))
  | write (j : BootUpdateJournal) (t : Slot) (img : Nat → Byte) (hj : d.journal = .record j)
    (hst : j.state = BootUpdateState.erasing.code ∨ j.state = BootUpdateState.programming.code ∨
      j.state = BootUpdateState.verifying.code) (hact : j.active = act) (ht : j.target = some t)
    (hout : SameOutside t.base slotSize d.image img) : Serves act d (d.setImage img)
  | commission (active : SlotId) (hj : d.journal = .unset)
    (ha : BootUpdate.commissionAllowed d.image active = true) :
    Serves act d (d.setJournal (BootJournal.completed 1 (BootUpdate.commissionRecord active)))
  | recover (d' : Durable) (h : Recovers d d') : Serves act d d'

namespace Consistent

variable {d d' : Durable} {j next : BootUpdateJournal} {act : SlotId} {s t x : Slot}

/-- The start of a transaction. -/
theorem begins {n : Word} (h : Consistent d) (hv : d.Valid) (hj : d.journal = .record j)
    (hlink : j.state ≠ BootUpdateState.idle.code → j.active = act)
    (hconf : ∀ s, act = some s →
      ∃ r, d.metadata s = .record r ∧ r.state = BootImageState.confirmed.code)
    (hnone : act = none → j.active = none ∧ ∀ s r, d.metadata s ≠ .record r) :
    Consistent (d.setJournal (BootJournal.completed n
      (BootUpdate.beginRecord j act (some t) slotSize))) := by
  obtain ⟨t₀, ht₀⟩ := (hv.journal j hj).exists_target
  have hstate : ∀ p, (BootJournal.completed n
      (BootUpdate.beginRecord j act (some t) slotSize)).state = p →
      p = BootUpdateState.preparing.code := fun _ h => h.symm
  -- the slot the server takes for the active one is confirmed
  have hactive : ∀ x, act = some x → d.Confirmed x := by
    intro x hx
    obtain ⟨r, hr, hs⟩ := hconf x hx
    by_cases hidle : j.state = BootUpdateState.idle.code
    · have hi := h.idle j t₀ hj ht₀ hidle
      by_cases hxt : x = t₀
      · subst hxt
        obtain ⟨r', hr', -, hgood, -⟩ := hi.installed
        obtain rfl := Register.Current.record.inj (hr.symm.trans hr')
        exact ⟨r, hr, hs, hgood⟩
      · cases ha : j.active with
        | none =>
          have hu := hi.unknown ha
          rw [← Slot.eq_other_of_ne hxt] at hu
          exact absurd (hr.symm.trans hu) (by simp)
        | some y =>
          obtain rfl := (hv.journal j hj).active_ne_target ha ht₀
          rw [Slot.eq_other_of_ne hxt]
          exact hi.active _ ha
    · refine ((h.busy j t₀ hj ht₀ hidle).active x ((hlink hidle).trans hx)).resolve_right ?_
      rintro ⟨-, -, hu, -⟩
      exact absurd (hr.symm.trans hu) (by simp)
  have hunset : act = none → ∀ s, d.metadata s = .unset := by
    intro hn s
    cases hm : d.metadata s with
    | unset => rfl
    | ambiguous => exact absurd hm (h.metadata s)
    | record r => exact absurd hm ((hnone hn).2 s r)
  refine ⟨by simp, h.metadata, by simp, ?_, ?_⟩
  · intro j' t' hj' _ hs
    obtain rfl := (Register.Current.record.inj hj').symm
    exact absurd (hstate _ hs) (by decide)
  · intro j' t' hj' htg _
    obtain rfl := (Register.Current.record.inj hj').symm
    have ha : (BootJournal.completed n (BootUpdate.beginRecord j act (some t) slotSize)).active =
      act := SlotId.ofCode_code act
    refine ⟨fun x hx => .inl (hactive x (ha.symm.trans hx)), fun hn => ?_, fun hs => ?_⟩
    · have hu := hunset (ha.symm.trans hn)
      exact ⟨hu _, .inl (hu _)⟩
    · rcases hs with hs | hs <;> exact absurd (hstate _ hs) (by decide)

/-- The commissioning of a journal. -/
theorem commissions {active : SlotId} {n : Word} (h : Consistent d) (hj : d.journal = .unset) :
    Consistent (d.setJournal (BootJournal.completed n (BootUpdate.commissionRecord active))) := by
  have hunset := h.unset hj
  have hstate : ∀ p, (BootJournal.completed n (BootUpdate.commissionRecord active)).state = p →
      p = BootUpdateState.aborted.code := fun _ h => h.symm
  refine ⟨by simp, h.metadata, by simp, ?_, ?_⟩
  · intro j t hj' _ hs
    obtain rfl := (Register.Current.record.inj hj').symm
    exact absurd (hstate _ hs) (by decide)
  · intro j t hj' _ _
    obtain rfl := (Register.Current.record.inj hj').symm
    refine ⟨fun x _ => .inr ⟨rfl, rfl, hunset x, hunset t⟩,
      fun _ => ⟨hunset _, .inl (hunset _)⟩, fun hs => ?_⟩
    rcases hs with hs | hs <;> exact absurd (hstate _ hs) (by decide)

theorem serverCommit (h : Consistent d) (hv : d.Valid) (hj : d.journal = .record j)
    (hc : ServerCommit act d j next) :
    Consistent (d.setJournal (BootJournal.completed (j.sequence + 1) next)) := by
  cases hc with
  | begin t _ hlink _ hconf hnone => exact h.begins hv hj hlink hconf hnone
  | advance p q hst hadv =>
    have hcase : (p ≠ .idle ∧ p ≠ .aborted) ∧ q ≠ .idle ∧ p ≠ .pendingActivation ∧
        q ≠ .verified ∧ q ≠ .pendingActivation := by
      revert hadv
      unfold ServerAdvance
      cases p <;> cases q <;> simp
    exact h.setJournal_busy (q := q) hj hst rfl rfl rfl hcase.1 hcase.2.1
      (fun hp => absurd hp hcase.2.2.1) fun hs =>
        hs.elim (fun hs => absurd hs hcase.2.2.2.1) fun hs => absurd hs hcase.2.2.2.2
  | progress size sequence hst =>
    exact h.setJournal_busy (q := .programming) hj hst hst rfl rfl (by decide) (by decide)
      (by decide) fun hs => absurd hs (by decide)
  | complete header sequence hst =>
    exact h.setJournal_busy (q := .transferComplete) hj hst rfl rfl rfl (by decide) (by decide)
      (by decide) fun hs => absurd hs (by decide)
  | verified hst ha =>
    exact h.setJournal_busy (q := .verified) hj hst rfl rfl rfl (by decide) (by decide)
      (by decide) fun _ => ha
  | pending hst =>
    obtain ⟨t, ht⟩ := (hv.journal j hj).exists_target
    have hb := h.busy j t hj ht (by rw [hst]; decide)
    exact h.setJournal_busy (q := .pendingActivation) hj hst rfl rfl rfl (by decide) (by decide)
      (by decide) fun _ => hb.accepts (.inl hst)
  | abort p reason hst hun =>
    exact h.setJournal_busy (q := .aborted) hj hst rfl rfl rfl ⟨hun.1, hun.2.2⟩ (by decide)
      (fun hp => absurd hp hun.2.1) fun hs => absurd hs (by decide)

/-- The server keeps the durable state consistent. -/
theorem serves (h : Consistent d) (hv : d.Valid) (hd : Serves act d d') : Consistent d' := by
  cases hd with
  | commit j next hj hc => exact h.serverCommit hv hj hc
  | write j t img hj hst hact ht hout =>
    refine h.setImage_busy hv hj ht ?_ hout fun hs => ?_
    · rcases hst with hs | hs | hs <;> rw [hs] <;> decide
    · rcases hst with hst | hst | hst <;> rcases hs with hs | hs <;>
        exact absurd (hst.symm.trans hs) (by decide)
  | commission active hj ha => exact h.commissions hj
  | recover d' hd => exact h.recovers hv hd

end Consistent
