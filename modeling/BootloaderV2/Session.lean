import BootloaderV2.SlotFlash
import BootloaderV2.Transaction
import BootloaderV2.Uds

/-!
# The programming server as steps on the durable state

The variables of a server that takes `act` for the active slot agree with the flash, and the
journal of a running transaction names `act` and the other slot.  Each service keeps that and takes
only server steps.
-/

open BootConfig NorFlash CrashM TwoCopy

/-- The slot the server programs. -/
def serverTarget : SlotId → Slot
  | none => .a
  | some s => s.other

theorem serverTarget_ne (act : SlotId) : act ≠ some (serverTarget act) := by
  cases act with
  | none => simp
  | some s => simp [serverTarget]

/-- A transaction is under way and not verified yet. -/
def Running (j : BootUpdateJournal) : Prop :=
  BootUpdateState.preparing.code ≤ j.state ∧ j.state < BootUpdateState.pendingActivation.code

theorem running_iff {j : BootUpdateJournal} {p : BootUpdateState} (h : j.state = p.code) :
    Running j ↔ Unverified p := by
  unfold Running
  rw [h]
  unfold Unverified
  cases p <;> decide

/-- The variables of the server, apart from the transfer under way. -/
structure Serving (act : SlotId) (b : Board) : Prop where
  ready : b.ram.flash.ready = true
  lifecycle : BootLifecycle.Mirror b
  update : BootUpdate.NoJournal b ∨ ∃ j, BootUpdate.Mirror b j
  active : b.ram.programming.activeSlot = act
  target : b.ram.programming.targetSlot = some (serverTarget act)
  /-- After a storage fault no transaction starts; there is no metadata to rely on then. -/
  faulted : b.ram.lifecycle.storageFault = true → ∀ s r, ¬ b.view.Metadata s r
  linked : ∀ j, b.view.Journal j → j.state ≠ BootUpdateState.idle.code →
    b.ram.lifecycle.storageFault = false ∨ Running j → j.active = act
  targeted : ∀ j, b.view.Journal j → Running j → j.target = some (serverTarget act)
  /-- The version told for the active image is its version, where a transaction can start. -/
  version : ∀ j s r, b.view.Journal j → act = some s → b.ram.lifecycle.storageFault = false →
    b.view.Metadata s r → r.state = BootImageState.confirmed.code →
    (BootImage.loadInfo b.mem (some s)).valid = true →
    b.ram.programming.activeVersion = (BootImage.loadInfo b.mem (some s)).header.softwareVersion
  /-- So it is while a transaction is under way. -/
  versioned : ∀ j s, b.view.Journal j → Running j → act = some s →
    (BootImage.loadInfo b.mem (some s)).valid = true →
    b.ram.programming.activeVersion = (BootImage.loadInfo b.mem (some s)).header.softwareVersion

namespace Serving

variable {act : SlotId} {b b' : Board} {j next : BootUpdateJournal}

theorem congr (h : Serving act b) (hdev : b'.dev = b.dev)
    (hready : b'.ram.flash.ready = b.ram.flash.ready)
    (hlife : b'.ram.lifecycle = b.ram.lifecycle) (hupdate : b'.ram.update = b.ram.update)
    (hactive : b'.ram.programming.activeSlot = b.ram.programming.activeSlot)
    (htarget : b'.ram.programming.targetSlot = b.ram.programming.targetSlot)
    (hversion : b'.ram.programming.activeVersion = b.ram.programming.activeVersion) :
    Serving act b' := by
  have hview : b'.view = b.view := by
    unfold Board.view
    rw [hdev]
  have hmem : b'.mem = b.mem := by
    unfold Board.mem
    rw [hdev]
  refine ⟨by rw [hready, h.ready], h.lifecycle.congr hdev (by rw [hlife]) (by rw [hlife]),
    h.update.imp (fun hn => hn.congr hdev hupdate) fun ⟨j, hj⟩ => ⟨j, hj.congr hdev hready hupdate⟩,
    by rw [hactive, h.active], by rw [htarget, h.target], ?_, ?_, ?_, ?_, ?_⟩
  · rw [hview, hlife]
    exact h.faulted
  · rw [hview, hlife]
    exact h.linked
  · rw [hview]
    exact h.targeted
  · rw [hview, hlife, hmem, hversion]
    exact h.version
  · rw [hview, hmem, hversion]
    exact h.versioned

/-- A commit of a record that names the slots of the server. -/
theorem committed {ram : Ram} (h : Serving act b) (hm : BootUpdate.Mirror b j)
    (hm' : BootUpdate.Mirror b' next)
    (hc : Changed b ram { b.view with journal := .valid next (some j) } b')
    (hlife : ram.lifecycle = b.ram.lifecycle) (hprog : ram.programming = b.ram.programming)
    (hlinked : next.state ≠ BootUpdateState.idle.code →
      b.ram.lifecycle.storageFault = false ∨ Running next → next.active = act)
    (htargeted : Running next → next.target = some (serverTarget act))
    (hversioned : Running next → ∀ s, act = some s →
      (BootImage.loadInfo b.mem (some s)).valid = true → b.ram.programming.activeVersion =
        (BootImage.loadInfo b.mem (some s)).header.softwareVersion) :
    Serving act b' := by
  have hview : ∀ n, b'.view.Journal n → n = next := fun n hn => hn.unique hm'.journal
  have hmeta : b'.view.metadata = b.view.metadata := by rw [hc.view]
  have hinfo : ∀ s, BootImage.loadInfo b'.mem s = BootImage.loadInfo b.mem s :=
    BootLifecycle.loadInfo_of_image (by rw [hc.view])
  refine ⟨hm'.ready, fun s => ⟨?_, fun r hr => ?_⟩, .inr ⟨next, hm'⟩, ?_, ?_, ?_, ?_, ?_, ?_, ?_⟩
  · rw [hc.ram, hlife, hmeta]
    exact (h.lifecycle s).status
  · rw [View.Metadata, hmeta] at hr
    rw [hc.ram, hlife]
    exact (h.lifecycle s).record r hr
  · rw [hc.ram, hprog, h.active]
  · rw [hc.ram, hprog, h.target]
  · intro hf s r hr
    rw [hc.ram, hlife] at hf
    rw [View.Metadata, hmeta] at hr
    exact h.faulted hf s r hr
  · intro n hn hs hcase
    obtain rfl := hview n hn
    rw [hc.ram, hlife] at hcase
    exact hlinked hs hcase
  · intro n hn hr
    obtain rfl := hview n hn
    exact htargeted hr
  · intro n s r hn hs hf hr hst hv
    rw [hinfo] at hv ⊢
    rw [hc.ram, hlife] at hf
    rw [View.Metadata, hmeta] at hr
    rw [hc.ram, hprog]
    exact h.version j s r hm.journal hs hf hr hst hv
  · intro n s hn hr hs hv
    obtain rfl := hview n hn
    rw [hinfo] at hv ⊢
    rw [hc.ram, hprog]
    exact hversioned hr s hs hv

/-- A commit that goes on with the transaction or gives it up. -/
theorem saved {ram : Ram} (h : Serving act b) (hm : BootUpdate.Mirror b j)
    (hm' : BootUpdate.Mirror b' next)
    (hc : Changed b ram { b.view with journal := .valid next (some j) } b')
    (hlife : ram.lifecycle = b.ram.lifecycle) (hprog : ram.programming = b.ram.programming)
    (hidle : j.state ≠ BootUpdateState.idle.code) (hactive : next.activeSlot = j.activeSlot)
    (htarget : next.targetSlot = j.targetSlot) (hrun : Running next → Running j) :
    Serving act b' := by
  refine h.committed hm hm' hc hlife hprog (fun _ hcase => ?_) (fun hr => ?_)
    fun hr s hs hv => h.versioned j s hm.journal (hrun hr) hs hv
  · rw [BootUpdateJournal.active, hactive]
    exact h.linked j hm.journal hidle (hcase.imp_right hrun)
  · rw [BootUpdateJournal.target, htarget]
    exact h.targeted j hm.journal (hrun hr)

/-- A write to the slot the server programs. -/
theorem wrote {d : Device Note} (h : Serving act b)
    (hout : SameOutside (serverTarget act).base slotSize b.dev.mem d.mem) :
    Serving act (b.setDev d) := by
  have hview := (View.of_slot hout).1
  have hjournal : (b.setDev d).view.journal = b.view.journal := by
    rw [Board.view_setDev, hview]
    rfl
  have hmeta : (b.setDev d).view.metadata = b.view.metadata := by
    rw [Board.view_setDev, hview]
    rfl
  have hinfo : ∀ s, act = some s →
      BootImage.loadInfo d.mem (some s) = BootImage.loadInfo b.mem (some s) := by
    rintro s rfl
    have := BootImage.loadInfo_other hout
    rw [serverTarget, Slot.other_other] at this
    exact this.symm
  refine ⟨h.ready, fun s => ⟨?_, fun r hr => ?_⟩, ?_, h.active, h.target, ?_, ?_, ?_, ?_, ?_⟩
  · rw [hmeta]
    exact (h.lifecycle s).status
  · rw [View.Metadata, hmeta] at hr
    exact (h.lifecycle s).record r hr
  · rcases h.update with hn | ⟨j, hm⟩
    · refine .inl ⟨fun j => ?_, hn.valid, hn.fault⟩
      rw [View.Journal, hjournal]
      exact hn.journal j
    · refine .inr ⟨j, hm.ready, hm.valid, hm.fault, hm.current, ?_⟩
      rw [View.Journal, hjournal]
      exact hm.journal
  · intro hf s r hr
    rw [View.Metadata, hmeta] at hr
    exact h.faulted hf s r hr
  · intro j hj
    rw [View.Journal, hjournal] at hj
    exact h.linked j hj
  · intro j hj
    rw [View.Journal, hjournal] at hj
    exact h.targeted j hj
  · intro j s r hj hs hf hr hst hv
    rw [View.Journal, hjournal] at hj
    rw [View.Metadata, hmeta] at hr
    rw [Board.setDev_mem, hinfo s hs] at hv ⊢
    exact h.version j s r hj hs hf hr hst hv
  · intro j s hj hr hs hv
    rw [View.Journal, hjournal] at hj
    rw [Board.setDev_mem, hinfo s hs] at hv ⊢
    exact h.versioned j s hj hr hs hv

/-- What a commit of the server leaves, apart from the journal. -/
structure Committed (act : SlotId) (b b' : Board) (next : BootUpdateJournal) : Prop where
  serving : Serving act b'
  mirror : BootUpdate.Mirror b' next
  lifecycle : b'.ram.lifecycle = b.ram.lifecycle
  programming : b'.ram.programming = b.ram.programming
  flash : b'.ram.flash = b.ram.flash
  image : b'.view.image = b.view.image
  metadata : b'.view.metadata = b.view.metadata

theorem Committed.of_changed {u : BootUpdate.State} (hs : Serving act b')
    (hm' : BootUpdate.Mirror b' next)
    (hc : Changed b { b.ram with update := u } { b.view with journal := .valid next (some j) } b') :
    Committed act b b' next :=
  ⟨hs, hm', by rw [hc.ram], by rw [hc.ram], by rw [hc.ram], by rw [hc.view], by rw [hc.view]⟩

/-- The transaction is given up. -/
theorem lifts_abort {p : BootUpdateState} {reason : BootUpdateResult} (h : Serving act b)
    (hm : BootUpdate.Mirror b j) (hf : b.dev.Faultless) (hst : j.state = p.code)
    (hun : Unverified p) :
    Runs (Lift (Serves act)) (BootUpdate.abort reason)
      (fun ok b' => ok = true ∧ ∃ next, next.state = BootUpdateState.aborted.code ∧
        Committed act b b' next) b := by
  refine (hm.abort hf hst hun.1 (.commit j _ hm.durable (.abort p reason hst hun))).mono ?_
  rintro ok b' - ⟨rfl, hm', hc⟩
  have hidle : j.state ≠ BootUpdateState.idle.code := by
    rw [hst]
    exact fun he => hun.1 (BootUpdateState.code_injective he)
  have hserving : Serving act b' := by
    refine h.saved hm hm' hc rfl rfl hidle rfl rfl fun hr => ?_
    have : ¬ Running (BootJournal.completed (j.sequence + 1) { j with
        state := BootUpdateState.aborted.code, lastResult := reason.code }) := by
      rw [running_iff (p := .aborted) rfl]
      exact fun hu => hu.2.2 rfl
    exact absurd hr this
  exact ⟨rfl, _, rfl, .of_changed hserving hm' hc⟩

/-- The next state of the transaction. -/
theorem lifts_setState {p q : BootUpdateState} (h : Serving act b)
    (hm : BootUpdate.Mirror b j) (hf : b.dev.Faultless) (hst : j.state = p.code)
    (hadv : ServerAdvance p q) :
    Runs (Lift (Serves act)) (BootUpdate.setState q)
      (fun ok b' => ok = true ∧ Committed act b b'
        (BootJournal.completed (j.sequence + 1) { j with state := q.code })) b := by
  have hcase : BootUpdate.transitionAllowed p.code q.code = true ∧ p ≠ .idle ∧
      Unverified p ∧ (q ≠ .idle → q ≠ .aborted → p ≠ .idle ∧ p ≠ .aborted) ∧
      (q ∈ [.transferComplete, .verifying, .verified, .pendingActivation] →
        p ∈ [.transferComplete, .verifying, .verified, .pendingActivation]) := by
    revert hadv
    unfold ServerAdvance Unverified
    cases p <;> cases q <;> decide
  obtain ⟨hallowed, hidle, hun, hsize, hheader⟩ := hcase
  have hwf := hm.wellFormed.withState (q := q) hst j.lastResult hm.wellFormed.lastResult hsize
    hheader
  refine (hm.setState hf hst hallowed hwf
    (.commit j _ hm.durable (.advance p q hst hadv))).mono ?_
  rintro ok b' - ⟨rfl, hm', hc⟩
  refine ⟨rfl, .of_changed (h.saved hm hm' hc rfl rfl ?_ rfl rfl fun _ => ?_) hm' hc⟩
  · rw [hst]
    exact fun he => hidle (BootUpdateState.code_injective he)
  · exact (running_iff hst).2 hun

/-- The record of a new transaction has valid fields. -/
theorem wellFormed_beginRecord {t : Slot} (current : BootUpdateJournal) (ht : act ≠ some t) :
    BootJournal.WellFormed (BootUpdate.beginRecord current act (some t) slotSize) := by
  refine ⟨show BootUpdateState.preparing.code ≤ _ by decide,
    show (0 : Word) ≤ BootUpdateResult.commissioned.code by decide, ⟨act, rfl⟩, ⟨t, rfl⟩, ?_,
    show (BitVec.ofNat 32 slotSize).toNat ≤ slotSize by decide,
    show (0 : Word) ≤ BitVec.ofNat 32 slotSize by decide, show (0 : Word) ≤ 255 by decide,
    show (0 : Word) &&& ~~~BootJournal.headerKnown = 0 by decide,
    fun _ _ => show (BitVec.ofNat 32 slotSize).toNat = slotSize by decide,
    fun (h : BootUpdateState.transferComplete.code ≤ BootUpdateState.preparing.code) _ =>
      absurd h (by decide)⟩
  show SlotId.code (some t) ≠ SlotId.code act
  exact fun he => ht (SlotId.code_injective he).symm

/-- `BootUpdate_Begin` for the slots the server names. -/
theorem lifts_beginUpdate {size : Nat} (h : Serving act b) (hf : b.dev.Faultless)
    (hcan : BootLifecycle.canStartUpdate b.ram.lifecycle act (some (serverTarget act)) = true) :
    Runs (Lift (Serves act)) (BootUpdate.beginUpdate act (some (serverTarget act)) size)
      (fun ok b' => (ok = false ∧ b' = b) ∨ (ok = true ∧ ∃ j next, b.view.Journal j ∧
        next = BootJournal.completed (j.sequence + 1)
          (BootUpdate.beginRecord j act (some (serverTarget act)) slotSize) ∧
        Committed act b b' next)) b := by
  unfold BootUpdate.beginUpdate
  rw [Runs.bind_getRam]
  refine .ite (fun _ => .pure (.inl ⟨rfl, rfl⟩)) fun hallowed => ?_
  have hb : BootUpdate.beginAllowed b.ram.update act (some (serverTarget act)) size = true := by
    simpa using hallowed
  simp only [BootUpdate.beginAllowed, BootUpdate.canContinue, Bool.and_eq_true, beq_iff_eq,
    Bool.not_eq_true', Option.isSome_some] at hb
  obtain ⟨⟨⟨⟨⟨⟨⟨hvalid, hfault⟩, htrans⟩, -⟩, -⟩, hsize⟩, -⟩, hunknown⟩ := hb
  obtain ⟨j, hm⟩ : ∃ j, BootUpdate.Mirror b j := by
    refine h.update.resolve_left fun hn => ?_
    rw [hn.valid] at hvalid
    cases hvalid
  obtain rfl := hm.current
  have hslot : size = slotSize := by
    rw [hsize]
    cases serverTarget act <;> rfl
  -- the gates of the lifecycle
  have hgate : b.ram.lifecycle.storageFault = false ∧
      (∀ s, act = some s → ∃ r, b.view.Metadata s r ∧ r.state = BootImageState.confirmed.code) ∧
      (act = none → ∀ s r, ¬ b.view.Metadata s r) := by
    unfold BootLifecycle.canStartUpdate at hcan
    split at hcan
    · cases hcan
    · rename_i hne
      push Not at hne
      refine ⟨by simpa using hne.2.2, ?_, ?_⟩
      · rintro s rfl
        simp only [Bool.and_eq_true, beq_iff_eq] at hcan
        obtain ⟨r, hr⟩ := (h.lifecycle s).status_valid.1 hcan.1
        exact ⟨r, hr, by rw [← (h.lifecycle s).record r hr, hcan.2]⟩
      · rintro rfl s r hr
        simp only [Bool.and_eq_true, bne_iff_ne] at hcan
        have hs := (h.lifecycle s).status_valid.2 ⟨r, hr⟩
        cases s with
        | a => exact hcan.1 hs
        | b => exact hcan.2 hs
  obtain ⟨hlfault, hconf, hnone⟩ := hgate
  have hstate : b.ram.update.current.state = BootUpdateState.idle.code ∨
      b.ram.update.current.state = BootUpdateState.aborted.code ∨
      b.ram.update.current.state = BootUpdateState.pendingActivation.code := by
    obtain ⟨p, hst⟩ := hm.wellFormed.exists_state
    rw [hst] at htrans ⊢
    revert htrans
    cases p <;> decide
  have hcommit : Serves act b.durable (b.durable.setJournal (BootJournal.completed
      (b.ram.update.current.sequence + 1) (BootUpdate.beginRecord b.ram.update.current act
        (some (serverTarget act)) slotSize))) := by
    refine .commit _ _ hm.durable (.begin _ hstate
      (fun hidle => h.linked _ hm.journal hidle (.inl hlfault)) (serverTarget_ne act)
      (fun s hs => ?_) fun hn => ⟨?_, fun s r hr => hnone hn s r (View.metadata_iff.1 hr)⟩)
    · obtain ⟨r, hr, hrs⟩ := hconf s hs
      exact ⟨r, View.metadata_iff.2 hr, hrs⟩
    · subst hn
      have : b.ram.update.current.activeSlot = SlotId.unknownCode := by simpa using hunknown
      rw [BootUpdateJournal.active, this]
      decide
  rw [hslot]
  refine (hm.save hf (wellFormed_beginRecord _ (serverTarget_ne act)) hcommit).bind ?_
  generalize hnext : BootJournal.completed (b.ram.update.current.sequence + 1)
    (BootUpdate.beginRecord b.ram.update.current act (some (serverTarget act)) slotSize) = next
  rintro ok b₁ - ⟨rfl, hm₁, hc⟩
  refine .ite (fun hn => absurd hn (by decide)) fun _ => ?_
  rw [Runs.bind_setUpdate]
  have hm₂ := hm₁.withRam (m := { b₁.ram with update := { b₁.ram.update with
    targetRevalidated := false } }) rfl hm₁.valid hm₁.fault hm₁.current
  have hc₂ : Changed b { b.ram with update := { b.ram.update with
        current := next
        targetRevalidated := false } }
      { b.view with journal := .valid next (some b.ram.update.current) }
      { b₁ with ram := { b₁.ram with update := { b₁.ram.update with
        targetRevalidated := false } } } := by
    refine ⟨?_, hc.view, hc.retained, hc.hw⟩
    show ({ b₁.ram with update := { b₁.ram.update with targetRevalidated := false } } : Ram) = _
    rw [hc.ram]
  refine .pure (.inr ⟨rfl, _, next, hm.journal, hnext.symm,
    .of_changed (h.committed hm hm₂ hc₂ rfl rfl (fun _ _ => ?_) (fun _ => ?_) ?_) hm₂ hc₂⟩)
  · rw [← hnext]
    exact SlotId.ofCode_code act
  · rw [← hnext]
    exact SlotId.ofCode_code (some (serverTarget act))
  · intro _ s hs hv
    obtain ⟨r, hr, hrs⟩ := hconf s hs
    exact h.version _ s r hm.journal hs hlfault hr hrs hv

/-- The states in which the target slot is written. -/
def Writing (j : BootUpdateJournal) : Prop :=
  j.state = BootUpdateState.erasing.code ∨ j.state = BootUpdateState.programming.code ∨
    j.state = BootUpdateState.verifying.code

theorem Writing.running (h : Writing j) : Running j := by
  unfold Running
  rcases h with h | h | h <;> rw [h] <;> decide

/-- A command in the target slot is a step of the server. -/
theorem write_step {m m' : Nat → Byte} (h : Serving act b) (hj : b.view.Journal j)
    (hst : Writing j) (hm : SameOutside (serverTarget act).base slotSize b.dev.mem m)
    (hm' : SameOutside (serverTarget act).base slotSize m m') :
    Lift (Serves act) (View.of m) (View.of m') := by
  have hidle : j.state ≠ BootUpdateState.idle.code := by
    rcases hst with h | h | h <;> rw [h] <;> decide
  obtain ⟨hview, -⟩ := View.of_slot hm
  obtain ⟨hview', hout⟩ := View.of_slot hm'
  rw [hview']
  refine .image (.write j (serverTarget act) _ ?_ hst (h.linked j hj hidle (.inr hst.running))
    (h.targeted j hj hst.running) hout)
  rw [hview]
  exact View.journal_iff.2 hj

theorem lifts_erase {address : Nat} (h : Serving act b) (hj : b.view.Journal j) (hst : Writing j)
    (hlo : (serverTarget act).base ≤ address)
    (hhi : address + flashSectorSize ≤ (serverTarget act).base + slotSize) :
    Runs (Lift (Serves act)) (BootFlash.erase address flashSectorSize)
      (fun _ b' => ∃ d, b' = b.setDev d ∧ SameOutside address flashSectorSize b.dev.mem d.mem) b :=
  BootFlash.runs_erase_any fun _ _ hm hm' =>
    h.write_step hj hst (hm.mono hlo hhi) (hm'.mono hlo hhi)

theorem lifts_program {address size : Nat} {data : Nat → Byte} (h : Serving act b)
    (hj : b.view.Journal j) (hst : Writing j) (hlo : (serverTarget act).base ≤ address)
    (hhi : address + size ≤ (serverTarget act).base + slotSize) :
    Runs (Lift (Serves act)) (BootFlash.program address data size)
      (fun _ b' => ∃ d, b' = b.setDev d ∧ SameOutside address size b.dev.mem d.mem) b :=
  BootFlash.runs_program_any fun _ _ hm hm' =>
    h.write_step hj hst (hm.mono hlo hhi) (hm'.mono hlo hhi)

/-- `BootUpdate_SetState`, whatever the state. -/
theorem lifts_setState_any {q : BootUpdateState} (h : Serving act b)
    (hm : BootUpdate.Mirror b j) (hf : b.dev.Faultless)
    (hadv : ∀ p : BootUpdateState, BootUpdate.transitionAllowed p.code q.code = true →
      ServerAdvance p q) :
    Runs (Lift (Serves act)) (BootUpdate.setState q)
      (fun ok b' => (ok = false ∧ b' = b) ∨ (ok = true ∧ ∃ p : BootUpdateState,
        j.state = p.code ∧ ServerAdvance p q ∧ Committed act b b'
          (BootJournal.completed (j.sequence + 1) { j with state := q.code }))) b := by
  obtain ⟨p, hst⟩ := hm.wellFormed.exists_state
  by_cases hallowed : BootUpdate.transitionAllowed p.code q.code = true
  · refine (h.lifts_setState hm hf hst (hadv p hallowed)).mono ?_
    rintro ok b' - ⟨rfl, hc⟩
    exact .inr ⟨rfl, p, hst, hadv p hallowed, hc⟩
  · unfold BootUpdate.setState
    rw [Runs.bind_getRam, hm.current, hst]
    exact .ite (fun _ => .pure (.inl ⟨rfl, rfl⟩)) fun hn => absurd (by simpa using hn) hallowed

end Serving

theorem BootUpdate.Mirror.wrote {b : Board} {j : BootUpdateJournal} {s : Slot} {d : Device Note}
    (h : BootUpdate.Mirror b j) (hout : SameOutside s.base slotSize b.dev.mem d.mem) :
    BootUpdate.Mirror (b.setDev d) j := by
  refine ⟨h.ready, h.valid, h.fault, h.current, ?_⟩
  rw [Board.view_setDev, (View.of_slot hout).1]
  exact h.journal

/-- The variables of the server, and those of the transfer under way. -/
structure Session (act : SlotId) (b : Board) : Prop extends Serving act b where
  downloading : b.ram.programming.downloadActive = true →
    ∃ j, b.view.Journal j ∧ j.state = BootUpdateState.programming.code
  staged : ∀ j, b.view.Journal j → j.state = BootUpdateState.transferComplete.code ∨
    j.state = BootUpdateState.verifying.code → b.ram.programming.stagedHeader = j.cachedHeader

theorem Session.congr {act : SlotId} {b b' : Board} (h : Session act b) (hdev : b'.dev = b.dev)
    (hready : b'.ram.flash.ready = b.ram.flash.ready)
    (hlife : b'.ram.lifecycle = b.ram.lifecycle) (hupdate : b'.ram.update = b.ram.update)
    (hactive : b'.ram.programming.activeSlot = b.ram.programming.activeSlot)
    (htarget : b'.ram.programming.targetSlot = b.ram.programming.targetSlot)
    (hversion : b'.ram.programming.activeVersion = b.ram.programming.activeVersion)
    (hdown : b'.ram.programming.downloadActive = true → b.ram.programming.downloadActive = true)
    (hstaged : b'.ram.programming.stagedHeader = b.ram.programming.stagedHeader) :
    Session act b' := by
  have hview : b'.view = b.view := by
    unfold Board.view
    rw [hdev]
  refine ⟨h.toServing.congr hdev hready hlife hupdate hactive htarget hversion, fun hd => ?_, ?_⟩
  · rw [hview]
    exact h.downloading (hdown hd)
  · rw [hview, hstaged]
    exact h.staged

theorem BootIsoTp.bind_transmit {α : Type} {R : View → View → Prop} {f : Bool → BootM α}
    {P : α → Board → Prop} {b : Board} :
    Runs R (BootIsoTp.transmit >>= f) P b ↔ Runs R (f (b.hw.transmits.headD true)) P
      { b with hw := { b.hw with transmits := b.hw.transmits.tail } } := Iff.rfl

namespace BootProgramming

variable {act : SlotId} {b b' : Board} {j : BootUpdateJournal}

/-- Where the server accepts work there is a journal. -/
theorem exists_mirror (h : Serving act b) (ha : accessCheck b.ram = 0) :
    ∃ j, BootUpdate.Mirror b j := by
  refine h.update.resolve_left fun hn => ?_
  unfold accessCheck BootUpdate.canContinue at ha
  rw [hn.valid] at ha
  revert ha
  cases b.ram.programming.sessionActive <;> cases b.ram.programming.securityUnlocked <;> simp

/-- After a commit outside of a transfer. -/
theorem session_of_committed {next : BootUpdateJournal} (h : Serving.Committed act b b' next)
    (hd : b.ram.programming.downloadActive = false)
    (hst : next.state ≠ BootUpdateState.transferComplete.code ∧
      next.state ≠ BootUpdateState.verifying.code) : Session act b' := by
  refine ⟨h.serving, fun hd' => ?_, fun j hj hs => ?_⟩
  · rw [h.programming, hd] at hd'
    cases hd'
  · obtain rfl := hj.unique h.mirror.journal
    exact absurd hs (not_or.2 hst)

/-- A failure ends the transaction. -/
theorem lifts_abort_session {α : Type} {reason : BootUpdateResult} {a : α}
    {p : BootUpdateState} (h : Serving act b)
    (hm : BootUpdate.Mirror b j) (hf : b.dev.Faultless) (hst : j.state = p.code)
    (hun : Unverified p) (hd : b.ram.programming.downloadActive = false) :
    Runs (Lift (Serves act)) (BootUpdate.abort reason >>= fun _ => pure a)
      (fun r b' => r = a ∧ Session act b') b := by
  refine (h.lifts_abort hm hf hst hun).bind ?_
  rintro ok b' - ⟨-, next, hnext, hc⟩
  refine .pure ⟨rfl, session_of_committed hc hd ?_⟩
  rw [hnext]
  decide

theorem lifts_eraseLoop {current n : Nat} (h : Serving act b) (hm : BootUpdate.Mirror b j)
    (hf : b.dev.Faultless) (hst : j.state = BootUpdateState.erasing.code)
    (hd : b.ram.programming.downloadActive = false)
    (hlo : (serverTarget act).base ≤ current)
    (hhi : current + flashSectorSize * n ≤ (serverTarget act).base + slotSize) :
    Runs (Lift (Serves act)) (eraseLoop (serverTarget act).header current n)
      (fun r b' => (r ≠ 0 ∧ Session act b') ∨ (r = 0 ∧ Serving act b' ∧ BootUpdate.Mirror b' j ∧
        b'.ram.programming = b.ram.programming)) b := by
  induction n generalizing b current with
  | zero => exact .pure (.inr ⟨rfl, h, hm, rfl⟩)
  | succ n ih =>
    rw [Nat.mul_succ] at hhi
    unfold eraseLoop
    refine .ite (fun _ => ih h hm hf hd (by omega) (by omega)) fun _ => ?_
    rw [BootIsoTp.bind_transmit]
    have h₁ : Serving act { b with hw := { b.hw with transmits := b.hw.transmits.tail } } :=
      h.congr rfl rfl rfl rfl rfl rfl rfl
    have hm₁ : BootUpdate.Mirror { b with hw := { b.hw with transmits := b.hw.transmits.tail } } j :=
      hm.congr rfl rfl rfl
    refine .ite (fun _ => ?_) fun _ => ?_
    · refine .pure (.inl ⟨by decide, h₁, fun hd' => ?_, fun j' hj' hs => ?_⟩)
      · exact absurd (hd.symm.trans hd') (by decide)
      · obtain rfl := hj'.unique hm.journal
        rw [hst] at hs
        exact absurd hs (by decide)
    refine (h₁.lifts_erase hm.journal (.inl hst) hlo (by omega)).bind ?_
    rintro ok b₂ htrail ⟨d, rfl, hout⟩
    have hout' := hout.mono (a := (serverTarget act).base) (n := slotSize) hlo (by omega)
    have h₂ := h₁.wrote hout'
    have hm₂ := hm₁.wrote hout'
    refine .ite (fun _ => ?_) fun _ => ?_
    · refine (lifts_abort_session (p := .erasing) h₂ hm₂ (htrail.faultless hf) hst ?_ hd).mono ?_
      · unfold Unverified
        decide
      · rintro r b' - ⟨rfl, hs⟩
        exact .inl ⟨by decide, hs⟩
    · exact ih h₂ hm₂ (htrail.faultless hf) hd (by omega) (by omega)

theorem containsRange_of_exact {c : Context} {address size : Nat}
    (h : exactTarget c address size = true) {t : Slot} (ht : c.targetSlot = some t) :
    address = t.base ∧ size = slotSize := by
  simp only [exactTarget, Bool.and_eq_true, beq_iff_eq] at h
  rw [ht] at h
  refine ⟨h.1.1.2, h.1.2.trans ?_⟩
  cases t <;> rfl

/-- The target of an exact request. -/
theorem exists_target_of_exact {c : Context} {address size : Nat}
    (h : exactTarget c address size = true) :
    ∃ t : Slot, c.targetSlot = some t ∧ c.activeSlot ≠ some t ∧ address = t.base ∧
      size = slotSize := by
  have hs := h
  simp only [exactTarget, Bool.and_eq_true, bne_iff_ne, ne_eq] at hs
  obtain ⟨t, ht⟩ := Option.isSome_iff_exists.1 hs.1.1.1.1
  obtain ⟨ha, hsize⟩ := containsRange_of_exact h ht
  refine ⟨t, ht, fun hact => hs.1.1.1.2 ?_, ha, hsize⟩
  rw [ht, hact]

/-- `BootProgramming_Erase` from `BootUpdate_Begin` on. -/
theorem session_eraseTarget {size : Nat} (h : Session act b) (hf : b.dev.Faultless)
    (hd : b.ram.programming.downloadActive = false) (hsize : size = slotSize)
    (hcan : BootLifecycle.canStartUpdate b.ram.lifecycle act (some (serverTarget act)) = true) :
    Runs (Lift (Serves act)) (eraseTarget act (some (serverTarget act)) (serverTarget act).base size)
      (fun _ b' => Session act b') b := by
  have hhdr := (serverTarget act).headerSector_le
  unfold eraseTarget
  dsimp only
  rw [show BootSlot.getHeaderAddress (some (serverTarget act)) = (serverTarget act).header from rfl]
  refine (h.lifts_beginUpdate hf hcan).bind ?_
  rintro ok b₁ htrail₁ (⟨rfl, rfl⟩ | ⟨rfl, j, next, hj, rfl, hc₁⟩)
  · exact .ite (fun _ => .pure h) fun hn => absurd rfl hn
  refine .ite (fun hn => absurd hn (by decide)) fun _ => ?_
  have hf₁ := htrail₁.faultless hf
  refine (hc₁.serving.lifts_setState (p := .preparing) (q := .erasing) hc₁.mirror hf₁ rfl ?_).bind
    ?_
  · simp [ServerAdvance]
  generalize hnext : BootJournal.completed _ _ = n₂
  have hst₂ : n₂.state = BootUpdateState.erasing.code := by rw [← hnext]; rfl
  rintro ok b₂ htrail₂ ⟨rfl, hc₂⟩
  refine .ite (fun hn => absurd hn (by decide)) fun _ => ?_
  have hf₂ := htrail₂.faultless hf₁
  have hd₂ : b₂.ram.programming.downloadActive = false := by
    rw [hc₂.programming, hc₁.programming, hd]
  have hun : Unverified .erasing := by
    unfold Unverified
    decide
  refine (hc₂.serving.lifts_erase hc₂.mirror.journal (.inl hst₂) hhdr.1 hhdr.2).bind ?_
  rintro ok b₃ htrail₃ ⟨d₃, rfl, hout₃⟩
  have hout₃' := Slot.outside_of_header hout₃
  have h₃ := hc₂.serving.wrote hout₃'
  have hm₃ := hc₂.mirror.wrote hout₃'
  have hf₃ := htrail₃.faultless hf₂
  refine .ite (fun _ => ?_) fun _ => ?_
  · exact (lifts_abort_session h₃ hm₃ hf₃ hst₂ hun hd₂).mono fun _ _ _ hr => hr.2
  refine (h₃.lifts_program hm₃.journal (.inl hst₂) hhdr.1
    (le_trans (Nat.add_le_add_left (by decide) _) hhdr.2)).bind ?_
  rintro ok b₄ htrail₄ ⟨d₄, rfl, hout₄⟩
  have hout₄' := hout₄.mono (a := (serverTarget act).base) (n := slotSize) hhdr.1
    (le_trans (Nat.add_le_add_left (by decide) _) hhdr.2)
  have h₄ := h₃.wrote hout₄'
  have hm₄ := hm₃.wrote hout₄'
  have hf₄ := htrail₄.faultless hf₃
  refine .ite (fun _ => ?_) fun _ => ?_
  · exact (lifts_abort_session h₄ hm₄ hf₄ hst₂ hun hd₂).mono fun _ _ _ hr => hr.2
  refine (lifts_eraseLoop h₄ hm₄ hf₄ hst₂ hd₂ (le_refl _) ?_).bind ?_
  · rw [hsize]
    exact Nat.add_le_add_left (by decide) _
  rintro r b₅ htrail₅ (⟨hr, hs⟩ | ⟨rfl, h₅, hm₅, hprog₅⟩)
  · exact .ite (fun _ => .pure hs) fun hn => absurd hr hn
  refine .ite (fun hn => absurd rfl hn) fun _ => ?_
  refine (h₅.lifts_setState (p := .erasing) (q := .downloadReady) hm₅ (htrail₅.faultless hf₄)
    hst₂ ?_).bind ?_
  · simp [ServerAdvance]
  rintro ok b₆ - ⟨rfl, hc₆⟩
  refine .ite (fun hn => absurd hn (by decide)) fun _ => ?_
  rw [Runs.bind_setProgramming]
  have hs₆ : Session act b₆ := by
    refine session_of_committed hc₆ ?_ ⟨?_, ?_⟩
    · rw [hprog₅]
      exact hd₂
    · show ¬ BootUpdateState.downloadReady.code = _
      decide
    · show ¬ BootUpdateState.downloadReady.code = _
      decide
  exact .pure (hs₆.congr rfl rfl rfl rfl rfl rfl rfl id rfl)

/-- Service FF00. -/
theorem session_erase {address size : Nat} (h : Session act b) (hf : b.dev.Faultless) :
    Runs (Lift (Serves act)) (erase address size) (fun _ b' => Session act b') b := by
  unfold erase
  rw [Runs.bind_getRam]
  dsimp only
  refine .ite (fun _ => .pure h) fun hacc => ?_
  refine .ite (fun _ => .pure h) fun hdown => ?_
  refine .ite (fun _ => .pure h) fun hexact => ?_
  refine .ite (fun _ => .pure h) fun hcan => ?_
  rw [h.active, h.target] at hcan ⊢
  obtain ⟨haddr, hsize⟩ := containsRange_of_exact (by simpa using hexact) h.target
  unfold abort
  rw [Runs.bind_setProgramming]
  have haborted : ∀ b' : Board, b'.dev = b.dev → b'.ram.flash.ready = b.ram.flash.ready →
      b'.ram.lifecycle = b.ram.lifecycle → b'.ram.update = b.ram.update →
      b'.ram.programming = aborted b.ram.programming → Session act b' := by
    intro b' hdev hready hlife hupdate hprog
    refine h.congr hdev hready hlife hupdate ?_ ?_ ?_ (fun hd => ?_) ?_
    · rw [hprog]; rfl
    · rw [hprog]; rfl
    · rw [hprog]; rfl
    · rw [hprog] at hd
      cases hd
    · rw [hprog]; rfl
  refine (BootFlash.runs_configureSlots (b := { b with ram := { b.ram with
    programming := aborted b.ram.programming } }) h.ready (serverTarget_ne act)).bind ?_
  rintro ok b₂ htrail ⟨rfl, rfl⟩
  refine .ite (fun hn => absurd hn (by decide)) fun _ => ?_
  rw [BootIsoTp.bind_transmit]
  refine .ite (fun _ => .pure (haborted _ rfl rfl rfl rfl rfl)) fun _ => ?_
  rw [haddr]
  exact session_eraseTarget (haborted _ rfl rfl rfl rfl rfl) (htrail.faultless hf) rfl hsize
    (by simpa using hcan)

/-- Service 34. -/
theorem session_download {address size : Nat} (h : Session act b) (hf : b.dev.Faultless) :
    Runs (Lift (Serves act)) (download address size) (fun _ b' => Session act b') b := by
  unfold download
  rw [Runs.bind_getRam]
  dsimp only
  refine .ite (fun _ => .pure h) fun hacc => ?_
  refine .ite (fun _ => .pure h) fun _ => ?_
  refine .ite (fun _ => .pure h) fun _ => ?_
  obtain ⟨j, hm⟩ := exists_mirror h.toServing (not_not.1 hacc)
  refine (h.lifts_setState_any (q := .programming) hm hf ?_).bind ?_
  · intro p
    unfold ServerAdvance
    cases p <;> decide
  rintro ok b₁ - (⟨rfl, rfl⟩ | ⟨rfl, p, hst, hadv, hc⟩)
  · exact .ite (fun _ => .pure h) fun hn => absurd rfl hn
  refine .ite (fun hn => absurd hn (by decide)) fun _ => ?_
  rw [Runs.bind_setProgramming]
  refine .pure ⟨hc.serving.congr rfl rfl rfl rfl rfl rfl rfl,
    fun _ => ⟨_, hc.mirror.journal, rfl⟩, fun j' hj' hs => ?_⟩
  obtain rfl := hj'.unique hc.mirror.journal
  refine absurd hs ?_
  show ¬ (BootUpdateState.programming.code = _ ∨ BootUpdateState.programming.code = _)
  decide

/-- A transfer under way: the journal is in state PROGRAMMING. -/
structure Transferring (act : SlotId) (j : BootUpdateJournal) (b : Board) : Prop where
  serving : Serving act b
  mirror : BootUpdate.Mirror b j
  state : j.state = BootUpdateState.programming.code

theorem Transferring.session (h : Transferring act j b) : Session act b := by
  refine ⟨h.serving, fun _ => ⟨j, h.mirror.journal, h.state⟩, fun j' hj' hs => ?_⟩
  obtain rfl := hj'.unique h.mirror.journal
  rw [h.state] at hs
  exact absurd hs (by decide)

theorem Transferring.congr (h : Transferring act j b) (hdev : b'.dev = b.dev)
    (hready : b'.ram.flash.ready = b.ram.flash.ready)
    (hlife : b'.ram.lifecycle = b.ram.lifecycle) (hupdate : b'.ram.update = b.ram.update)
    (hactive : b'.ram.programming.activeSlot = b.ram.programming.activeSlot)
    (htarget : b'.ram.programming.targetSlot = b.ram.programming.targetSlot)
    (hversion : b'.ram.programming.activeVersion = b.ram.programming.activeVersion) :
    Transferring act j b' :=
  ⟨h.serving.congr hdev hready hlife hupdate hactive htarget hversion,
    h.mirror.congr hdev hready hupdate, h.state⟩

theorem lifts_flushPhrase (h : Transferring act j b) :
    Runs (Lift (Serves act)) flushPhrase (fun _ b' => Transferring act j b') b := by
  unfold flushPhrase
  rw [Runs.bind_getRam]
  dsimp only
  rw [h.serving.target]
  refine .ite (fun _ => .pure h) fun hrange => ?_
  have hin : BootSlot.containsRange (some (serverTarget act))
      (b.ram.programming.targetAddress + b.ram.programming.programmedSize) flashPhraseSize = true := by
    simp only [Bool.or_eq_true, not_or, Bool.not_eq_true', Bool.not_eq_false] at hrange
    exact hrange.1
  rw [BootFlash.containsRange_iff] at hin
  refine .ite (fun _ => ?_) fun _ => .ite (fun _ => .pure h) fun _ => ?_
  · rw [Runs.bind_setProgramming]
    exact .pure (h.congr rfl rfl rfl rfl rfl rfl rfl)
  · refine (h.serving.lifts_program h.mirror.journal (.inr (.inl h.state)) hin.2.1 hin.2.2).bind ?_
    rintro ok b₁ - ⟨d, rfl, hout⟩
    have hout' := hout.mono hin.2.1 hin.2.2
    have h₁ : Transferring act j (b.setDev d) :=
      ⟨h.serving.wrote hout', h.mirror.wrote hout', h.state⟩
    refine .ite (fun _ => .pure h₁) fun _ => ?_
    rw [Runs.bind_setProgramming]
    exact .pure (h₁.congr rfl rfl rfl rfl rfl rfl rfl)

theorem lifts_transferLoop {data : List Byte} (h : Transferring act j b) (hf : b.dev.Faultless) :
    Runs (Lift (Serves act)) (transferLoop data) (fun _ b' => Transferring act j b') b := by
  induction data generalizing b with
  | nil => exact .pure h
  | cons byte bytes ih =>
    unfold transferLoop
    rw [Runs.bind_setProgramming, Runs.bind_getRam]
    have h₁ : ∀ c : Context, c.activeSlot = b.ram.programming.activeSlot →
        c.targetSlot = b.ram.programming.targetSlot →
        c.activeVersion = b.ram.programming.activeVersion →
        Transferring act j { b with ram := { b.ram with programming := c } } :=
      fun _ ha ht hv => h.congr rfl rfl rfl rfl ha ht hv
    refine .ite (fun _ => ?_) fun _ => ih (h₁ _ rfl rfl rfl) hf
    refine Runs.bind (lifts_flushPhrase (j := j) ?_) ?_
    · exact h₁ _ rfl rfl rfl
    rintro ok b₂ htrail h₂
    exact .ite (fun _ => .pure h₂) fun _ => ih h₂ (htrail.faultless hf)

/-- `durableSize` stays below the size of the slot. -/
theorem durableSize_le {programmed expected : Nat} (h : programmed ≤ expected) :
    BootUpdate.durableSize programmed expected ≤ expected := by
  have hdiv := Nat.div_mul_le_self programmed BootJournal.checkpoint
  unfold BootUpdate.durableSize
  dsimp only
  split <;> omega

theorem lifts_setProgress {programmed : Nat} {sequence : Byte} (h : Transferring act j b)
    (hf : b.dev.Faultless) :
    Runs (Lift (Serves act)) (BootUpdate.setProgress programmed sequence)
      (fun _ b' => (∃ j', Transferring act j' b') ∧ b'.ram.programming = b.ram.programming) b := by
  obtain rfl := h.mirror.current
  have hsame : ∀ {ok : Bool}, Runs (Lift (Serves act)) (pure ok) (fun _ b' =>
      (∃ j', Transferring act j' b') ∧ b'.ram.programming = b.ram.programming) b :=
    .pure ⟨⟨_, h⟩, rfl⟩
  unfold BootUpdate.setProgress
  rw [Runs.bind_getRam]
  dsimp only
  refine .ite (fun _ => hsame) fun hgo => .ite (fun _ => hsame) fun _ => ?_
  have hle : programmed ≤ b.ram.update.current.expectedSize.toNat := by
    simp only [Bool.or_eq_true, not_or, decide_eq_true_eq, not_lt] at hgo
    exact hgo.2
  refine (h.mirror.save (S := Serves act) hf
    (h.mirror.wellFormed.progress h.state (durableSize_le hle) sequence) (.commit _ _ h.mirror.durable
    (.progress _ (sequence.setWidth 32) h.state))).mono ?_
  rintro ok b' - ⟨-, hm', hc⟩
  refine ⟨⟨_, h.serving.saved h.mirror hm' hc rfl rfl ?_ rfl rfl fun hr => hr, hm', h.state⟩, ?_⟩
  · rw [h.state]
    decide
  · rw [hc.ram]

/-- Service 36. -/
theorem session_transfer {sequence : Byte} {data : List Byte} (h : Session act b)
    (hf : b.dev.Faultless) :
    Runs (Lift (Serves act)) (transfer sequence data) (fun _ b' => Session act b') b := by
  unfold transfer
  rw [Runs.bind_getRam]
  dsimp only
  refine .ite (fun _ => .pure h) fun hacc => ?_
  refine .ite (fun _ => .pure h) fun hdown => ?_
  refine .ite (fun _ => .pure h) fun _ => ?_
  refine .ite (fun _ => .pure h) fun _ => ?_
  refine .ite (fun _ => .pure h) fun _ => ?_
  obtain ⟨j, hj, hst⟩ := h.downloading (by simpa using hdown)
  obtain ⟨j', hm⟩ := exists_mirror h.toServing (not_not.1 hacc)
  obtain rfl := hm.journal.unique hj
  refine (lifts_transferLoop ⟨h.toServing, hm, hst⟩ hf).bind ?_
  rintro ok b₁ htrail₁ h₁
  have hf₁ := htrail₁.faultless hf
  refine .ite (fun _ => ?_) fun _ => ?_
  · refine (h₁.serving.lifts_abort (p := .programming) h₁.mirror hf₁ hst ?_).bind ?_
    · unfold Unverified
      decide
    rintro ok b₂ - ⟨-, next, hnext, hc⟩
    unfold abort
    rw [Runs.bind_setProgramming]
    refine .pure ⟨hc.serving.congr rfl rfl rfl rfl rfl rfl rfl, fun hd => (by cases hd),
      fun n hn hs => ?_⟩
    obtain rfl := hn.unique hc.mirror.journal
    rw [hnext] at hs
    exact absurd hs (by decide)
  · rw [Runs.bind_setProgramming, Runs.bind_getRam]
    have h₂ : Transferring act j' { b₁ with ram := { b₁.ram with programming :=
        { b₁.ram.programming with
          receivedSize := b₁.ram.programming.receivedSize + data.length } } } :=
      h₁.congr rfl rfl rfl rfl rfl rfl rfl
    refine (lifts_setProgress h₂ hf₁).bind ?_
    rintro ok b₃ - ⟨⟨j₃, h₃⟩, -⟩
    refine .ite (fun _ => ?_) fun _ => ?_
    · unfold abort
      rw [Runs.bind_setProgramming]
      exact .pure (h₃.session.congr rfl rfl rfl rfl rfl rfl rfl (fun hd => by cases hd) rfl)
    · rw [Runs.bind_setProgramming]
      exact .pure (Transferring.session (h₃.congr rfl rfl rfl rfl rfl rfl rfl))

/-- `BootUpdate_MarkTransferComplete`. -/
theorem lifts_markTransferComplete {header : BootImageHeader} {sequence : Byte}
    (h : Transferring act j b) (hf : b.dev.Faultless) :
    Runs (Lift (Serves act)) (BootUpdate.markTransferComplete header sequence)
      (fun ok b' => ok = true ∧ ∃ next, next.state = BootUpdateState.transferComplete.code ∧
        next.cachedHeader = header ∧ Serving.Committed act b b' next) b := by
  obtain rfl := h.mirror.current
  have hwf := h.mirror.wellFormed
  have hst := h.state
  unfold BootUpdate.markTransferComplete BootUpdate.canContinue
  rw [Runs.bind_getRam]
  dsimp only
  refine .ite (fun hn => absurd hn (by simp [h.mirror.valid, h.mirror.fault, hst])) fun _ => ?_
  refine (h.mirror.save (S := Serves act) hf (hwf.transferComplete hst header sequence)
    (.commit _ _ h.mirror.durable (.complete header (sequence.setWidth 32) hst))).mono ?_
  rintro ok b' - ⟨rfl, hm', hc⟩
  refine ⟨rfl, _, rfl, rfl, .of_changed (h.serving.saved h.mirror hm' hc rfl rfl ?_ rfl rfl
    fun _ => ?_) hm' hc⟩
  · rw [hst]
    decide
  · refine (running_iff (p := .programming) hst).2 ?_
    unfold Unverified
    decide

/-- Service 37. -/
theorem session_exit (h : Session act b) (hf : b.dev.Faultless) :
    Runs (Lift (Serves act)) exit (fun _ b' => Session act b') b := by
  unfold exit
  rw [Runs.bind_getRam]
  dsimp only
  refine .ite (fun _ => .pure h) fun hacc => ?_
  refine .ite (fun _ => .pure h) fun hready => ?_
  have hdown : b.ram.programming.downloadActive = true := by
    simp only [Bool.or_eq_true, not_or, Bool.not_eq_true', Bool.not_eq_false] at hready
    exact hready.1.1.1
  obtain ⟨j, hj, hst⟩ := h.downloading hdown
  obtain ⟨j', hm⟩ := exists_mirror h.toServing (not_not.1 hacc)
  obtain rfl := hm.journal.unique hj
  refine (lifts_markTransferComplete ⟨h.toServing, hm, hst⟩ hf).bind ?_
  rintro ok b₁ - ⟨rfl, next, hnext, hheader, hc⟩
  refine .ite (fun hn => absurd hn (by decide)) fun _ => ?_
  rw [Runs.bind_setProgramming]
  refine .pure ⟨hc.serving.congr rfl rfl rfl rfl rfl rfl rfl, fun hd => (by cases hd),
    fun j' hj' _ => ?_⟩
  obtain rfl := hj'.unique hc.mirror.journal
  rw [hheader, ← hc.programming]

/-- A verification under way. -/
structure Verifying (act : SlotId) (j : BootUpdateJournal) (b : Board) : Prop where
  serving : Serving act b
  mirror : BootUpdate.Mirror b j
  state : j.state = BootUpdateState.verifying.code
  staged : b.ram.programming.stagedHeader = j.cachedHeader
  still : b.ram.programming.downloadActive = false

namespace Verifying

variable {α : Type} {a : α} {reason : BootUpdateResult}

theorem session (h : Verifying act j b) : Session act b := by
  refine ⟨h.serving, fun hd => ?_, fun j' hj' _ => ?_⟩
  · rw [h.still] at hd
    cases hd
  · obtain rfl := hj'.unique h.mirror.journal
    exact h.staged

theorem congr (h : Verifying act j b) (hdev : b'.dev = b.dev)
    (hflash : b'.ram.flash = b.ram.flash) (hlife : b'.ram.lifecycle = b.ram.lifecycle)
    (hupdate : b'.ram.update = b.ram.update)
    (hactive : b'.ram.programming.activeSlot = b.ram.programming.activeSlot)
    (htarget : b'.ram.programming.targetSlot = b.ram.programming.targetSlot)
    (hversion : b'.ram.programming.activeVersion = b.ram.programming.activeVersion)
    (hdown : b'.ram.programming.downloadActive = b.ram.programming.downloadActive)
    (hstaged : b'.ram.programming.stagedHeader = b.ram.programming.stagedHeader) :
    Verifying act j b' :=
  ⟨h.serving.congr hdev (by rw [hflash]) hlife hupdate hactive htarget hversion,
    h.mirror.congr hdev (by rw [hflash]) hupdate, h.state, hstaged.trans h.staged,
    hdown.trans h.still⟩

/-- The header sector is written. -/
theorem wrote {d : Device Note} (h : Verifying act j b)
    (hout : SameOutside (serverTarget act).header flashSectorSize b.dev.mem d.mem) :
    Verifying act j (b.setDev d) :=
  ⟨h.serving.wrote (Slot.outside_of_header hout), h.mirror.wrote (Slot.outside_of_header hout),
    h.state, h.staged, h.still⟩

theorem accepts_wrote {d : Device Note} (h : Verifying act j b) (ha : b.durable.Accepts j)
    (hout : SameOutside (serverTarget act).header flashSectorSize b.dev.mem d.mem) :
    (b.setDev d).durable.Accepts j := by
  have hrun : Running j := by
    unfold Running
    rw [h.state]
    decide
  have ht := h.serving.targeted j h.mirror.journal hrun
  unfold Durable.Accepts at ha ⊢
  rw [ht] at ha ⊢
  rw [Board.durable, View.durable_image, Board.view, View.of, BootFlash.accepted_image] at ha ⊢
  rw [Board.setDev_dev, ← BootImageInstall.accepted_congr hout]
  exact ha

/-- The image is refused. -/
theorem lifts_abort (h : Verifying act j b) (hf : b.dev.Faultless) :
    Runs (Lift (Serves act)) (BootUpdate.abort reason >>= fun _ => pure a)
      (fun r b' => r = a ∧ Session act b') b := by
  refine lifts_abort_session h.serving h.mirror hf h.state ?_ h.still
  unfold Unverified
  decide

/-- The header cannot be written. -/
theorem lifts_abandon (h : Verifying act j b) (hf : b.dev.Faultless) :
    Runs (Lift (Serves act))
      (BootUpdate.abort reason >>= fun _ => BootProgramming.abort >>= fun _ => pure a)
      (fun r b' => r = a ∧ Session act b') b := by
  refine (h.serving.lifts_abort (p := .verifying) h.mirror hf h.state ?_).bind ?_
  · unfold Unverified
    decide
  rintro ok b₁ - ⟨-, next, hnext, hc⟩
  unfold BootProgramming.abort
  rw [Runs.bind_setProgramming]
  refine .pure ⟨rfl, hc.serving.congr rfl rfl rfl rfl rfl rfl rfl, fun hd => (by cases hd),
    fun j' hj' hs => ?_⟩
  obtain rfl := hj'.unique hc.mirror.journal
  rw [hnext] at hs
  exact absurd hs (by decide)

/-- The two commits of `BootUpdate_MarkVerified`. -/
theorem lifts_markVerified (h : Verifying act j b) (hf : b.dev.Faultless)
    (ha : b.durable.Accepts j) :
    Runs (Lift (Serves act)) (BootUpdate.markVerified false)
      (fun ok b' => ok = true ∧ Session act b' ∧ ∃ j', b'.view.Journal j' ∧
        j'.state = BootUpdateState.pendingActivation.code) b := by
  have hidle : j.state ≠ BootUpdateState.idle.code := by
    rw [h.state]
    decide
  have hrun : Running j := by
    unfold Running
    rw [h.state]
    decide
  refine (h.mirror.markVerified (c := false) hf h.state
    (.commit j _ h.mirror.durable (.verified h.state ha)) ?_).mono ?_
  · rintro d rfl
    exact .commit _ _ rfl (.pending rfl)
  rintro ok b' - ⟨rfl, b₁, ⟨hm₁, hc₁⟩, hm', hc'⟩
  have hs₁ := h.serving.saved h.mirror hm₁ hc₁ rfl rfl hidle rfl rfl fun _ => hrun
  have hs' : Serving act b' := by
    refine hs₁.saved hm₁ hm' hc' rfl rfl ?_ rfl rfl fun hr => absurd hr ?_
    · show BootUpdateState.verified.code ≠ BootUpdateState.idle.code
      decide
    · rw [running_iff (p := .pendingActivation) rfl]
      exact fun hu => hu.2.1 rfl
  have hprog : b'.ram.programming = b.ram.programming := by
    rw [hc'.ram]
    show b₁.ram.programming = _
    rw [hc₁.ram]
  refine ⟨rfl, ⟨hs', fun hd => ?_, fun j' hj' hs => ?_⟩, _, hm'.journal, rfl⟩
  · rw [hprog, h.still] at hd
    cases hd
  · obtain rfl := hj'.unique hm'.journal
    refine absurd hs ?_
    show ¬ (BootUpdateState.pendingActivation.code = _ ∨ BootUpdateState.pendingActivation.code = _)
    decide

end Verifying

/-- What a verification leaves: the session goes on, and success makes the update pending. -/
def Verified (act : SlotId) (r : Byte) (b' : Board) : Prop :=
  Session act b' ∧ (r = 0 → ∃ j, b'.view.Journal j ∧
    j.state = BootUpdateState.pendingActivation.code)

theorem Verified.of_failed {r : Byte} (hs : Session act b) (hr : r ≠ 0) : Verified act r b :=
  ⟨hs, fun h => absurd h hr⟩

theorem lifts_verifyPublished {c : Context} (h : Verifying act j b) (hf : b.dev.Faultless)
    (ha : b.durable.Accepts j) :
    Runs (Lift (Serves act)) (verifyPublished c) (Verified act) b := by
  unfold verifyPublished
  rw [Runs.bind_flash, Runs.bind_setProgramming]
  generalize hb₁ : ({ b with ram := _ } : Board) = b₁
  have h₁ : Verifying act j b₁ := by
    rw [← hb₁]
    exact h.congr rfl rfl rfl rfl rfl rfl rfl rfl rfl
  have hf₁ : b₁.dev.Faultless := by
    rw [← hb₁]
    exact hf
  have ha₁ : b₁.durable.Accepts j := by
    rw [← hb₁]
    exact ha
  refine .ite (fun _ => ?_) fun _ => ?_
  · refine (h₁.lifts_abort hf₁).mono ?_
    rintro r b' - ⟨rfl, hs⟩
    exact .of_failed hs (by decide)
  · refine (h₁.lifts_markVerified hf₁ ha₁).bind ?_
    rintro ok b₂ - ⟨rfl, hs, hj⟩
    exact .ite (fun _ => .pure ⟨hs, fun _ => hj⟩) fun hn => absurd rfl hn

theorem lifts_verifyPublish {c : Context} (h : Verifying act j b) (hf : b.dev.Faultless)
    (ha : b.durable.Accepts j) (ht : c.targetSlot = some (serverTarget act)) :
    Runs (Lift (Serves act)) (verifyPublish c) (Verified act) b := by
  have hhdr := (serverTarget act).headerSector_le
  have hw : Serving.Writing j := .inr (.inr h.state)
  have hfailed : ∀ {b₁ : Board}, Verifying act j b₁ → b₁.dev.Faultless →
      Runs (Lift (Serves act)) (BootUpdate.abort .programFailed >>= fun _ =>
        abort >>= fun _ => pure 0x72) (Verified act) b₁ := by
    intro b₁ h₁ hf₁
    refine (h₁.lifts_abandon hf₁).mono ?_
    rintro r b' - ⟨rfl, hs⟩
    exact .of_failed hs (by decide)
  unfold verifyPublish
  rw [ht]
  dsimp only
  rw [show BootSlot.getHeaderAddress (some (serverTarget act)) = (serverTarget act).header from rfl]
  refine (h.serving.lifts_erase h.mirror.journal hw hhdr.1 hhdr.2).bind ?_
  rintro ok b₁ htrail₁ ⟨d₁, rfl, hout₁⟩
  have h₁ := h.wrote hout₁
  have ha₁ := h.accepts_wrote ha hout₁
  have hf₁ := htrail₁.faultless hf
  refine .ite (fun _ => hfailed h₁ hf₁) fun _ => ?_
  refine (h₁.serving.lifts_program h₁.mirror.journal hw hhdr.1
    (le_trans (Nat.add_le_add_left (by decide) _) hhdr.2)).bind ?_
  rintro ok b₂ htrail₂ ⟨d₂, rfl, hout₂⟩
  have hout₂' := hout₂.mono (a := (serverTarget act).header) (n := flashSectorSize)
    (le_refl _) (Nat.add_le_add_left (by decide) _)
  have h₂ := h₁.wrote hout₂'
  have ha₂ := h₁.accepts_wrote ha₁ hout₂'
  have hf₂ := htrail₂.faultless hf₁
  refine .ite (fun _ => hfailed h₂ hf₂) fun _ => ?_
  rw [BootIsoTp.bind_transmit]
  generalize hb₃ : ({ (b.setDev d₁).setDev d₂ with hw := _ } : Board) = b₃
  have h₃ : Verifying act j b₃ := by
    rw [← hb₃]
    exact h₂.congr rfl rfl rfl rfl rfl rfl rfl rfl rfl
  refine .ite (fun _ => .pure (.of_failed h₃.session (by decide))) fun _ => ?_
  refine lifts_verifyPublished h₃ ?_ ?_ <;> rw [← hb₃]
  · exact hf₂
  · exact ha₂

/-- The checks on the staged header are those that recovery makes again. -/
theorem accepts_of_verified (h : Verifying act j b)
    (hvalid : (BootImage.validate b.mem (some (serverTarget act))
      { BootImage.zeroInfo with header := b.ram.programming.stagedHeader }).validationResult = .valid)
    (hversion : ¬ (act.isSome = true ∧ BootVersion.compare
      b.ram.programming.stagedHeader.softwareVersion b.ram.programming.activeVersion ≠ .greater)) :
    b.durable.Accepts j := by
  have hidle : j.state ≠ BootUpdateState.idle.code := by
    rw [h.state]
    decide
  have hrun : Running j := by
    unfold Running
    rw [h.state]
    decide
  have ha := h.serving.linked j h.mirror.journal hidle (.inr hrun)
  have ht := h.serving.targeted j h.mirror.journal hrun
  unfold Durable.Accepts
  rw [ha, ht, ← h.staged, Board.durable, View.durable_image, Board.view, View.of,
    BootFlash.accepted_image]
  unfold BootImageInstall.accepted
  rw [if_neg (by simp [serverTarget_ne act])]
  refine (if_neg fun hn => hn hvalid).trans ?_
  cases hact : act with
  | none => rfl
  | some s =>
    dsimp only
    split
    · split
      · rename_i hs
        have hv := h.serving.versioned j s h.mirror.journal hrun hact hs
        rw [hact] at hversion
        push Not at hversion
        have := hversion rfl
        rw [hv] at this
        exact beq_iff_eq.2 this
      · rfl
    · rfl

/-- Routine FF01. -/
theorem session_verify (h : Session act b) (hf : b.dev.Faultless) :
    Runs (Lift (Serves act)) verify (Verified act) b := by
  unfold verify
  rw [Runs.bind_getRam]
  dsimp only
  refine .ite (fun hacc => .pure (.of_failed h hacc)) fun hacc => ?_
  refine .ite (fun _ => .pure (.of_failed h (by decide))) fun hready => ?_
  have hdown : b.ram.programming.downloadActive = false := by
    simp only [Bool.or_eq_true, not_or, Bool.not_eq_true', Bool.not_eq_true] at hready
    exact hready.1.2
  rw [BootIsoTp.bind_transmit]
  generalize hb₁ : ({ b with hw := _ } : Board) = b₁
  have h₁ : Session act b₁ := by
    rw [← hb₁]
    exact h.congr rfl rfl rfl rfl rfl rfl rfl id rfl
  have hf₁ : b₁.dev.Faultless := by
    rw [← hb₁]
    exact hf
  have hprog₁ : b₁.ram.programming = b.ram.programming := by rw [← hb₁]
  have hacc₁ : accessCheck b₁.ram = 0 := by
    rw [← hb₁]
    exact not_not.1 hacc
  refine .ite (fun _ => .pure (.of_failed h₁ (by decide))) fun _ => ?_
  -- VERIFYING is saved before the image is judged
  obtain ⟨j, hm⟩ := exists_mirror h₁.toServing hacc₁
  refine (h₁.lifts_setState_any (q := .verifying) hm hf₁ ?_).bind ?_
  · intro p
    unfold ServerAdvance
    cases p <;> decide
  rintro ok b₂ htrail (⟨rfl, rfl⟩ | ⟨rfl, p, hst, hadv, hc⟩)
  · exact .ite (fun _ => .pure (.of_failed h₁ (by decide))) fun hn => absurd rfl hn
  refine .ite (fun hn => absurd hn (by decide)) fun _ => ?_
  have hprog₂ : b₂.ram.programming = b.ram.programming := hc.programming.trans hprog₁
  -- only a closed transfer can be verified
  have htc : p = .transferComplete := by
    revert hadv
    unfold ServerAdvance
    cases p <;> decide
  have h₂ : Verifying act (BootJournal.completed (j.sequence + 1)
      { j with state := BootUpdateState.verifying.code }) b₂ := by
    refine ⟨hc.serving, hc.mirror, rfl, ?_, by rw [hprog₂, hdown]⟩
    rw [hc.programming]
    exact h₁.staged j hm.journal (.inl (by rw [hst, htc]))
  have hf₂ := htrail.faultless hf₁
  rw [Runs.bind_flash, Runs.bind_setProgramming]
  generalize hb₃ : ({ b₂ with ram := _ } : Board) = b₃
  have h₃ : Verifying act (BootJournal.completed (j.sequence + 1)
      { j with state := BootUpdateState.verifying.code }) b₃ := by
    rw [← hb₃]
    exact h₂.congr rfl rfl rfl rfl rfl rfl rfl rfl rfl
  have hf₃ : b₃.dev.Faultless := by
    rw [← hb₃]
    exact hf₂
  -- an image that is bad or too old ends the transaction
  have hfailed : ∀ {r : Byte}, r ≠ 0 → Runs (Lift (Serves act))
      (BootUpdate.abort .badImage >>= fun _ => pure r) (Verified act) b₃ := by
    intro r hr
    refine (h₃.lifts_abort hf₃).mono ?_
    rintro r' b' - ⟨rfl, hs⟩
    exact .of_failed hs hr
  refine .ite (fun _ => hfailed (by decide)) fun hvalid => ?_
  refine .ite (fun _ => hfailed (by decide)) fun hversion => ?_
  -- recovery would accept the header as well
  have ha : b₃.durable.Accepts (BootJournal.completed (j.sequence + 1)
      { j with state := BootUpdateState.verifying.code }) := by
    refine accepts_of_verified h₃ ?_ ?_ <;> rw [← hb₃]
    · rw [← h.target]
      show (BootImage.validate b₂.mem _ { BootImage.zeroInfo with
        header := b₂.ram.programming.stagedHeader }).validationResult = _
      rw [hprog₂]
      exact not_not.1 hvalid
    · show ¬ (act.isSome = true ∧ BootVersion.compare
        b₂.ram.programming.stagedHeader.softwareVersion b₂.ram.programming.activeVersion ≠ _)
      rw [hprog₂, ← h.active]
      exact hversion
  rw [BootIsoTp.bind_transmit]
  generalize hb₄ : ({ b₃ with hw := _ } : Board) = b₄
  have h₄ : Verifying act (BootJournal.completed (j.sequence + 1)
      { j with state := BootUpdateState.verifying.code }) b₄ := by
    rw [← hb₄]
    exact h₃.congr rfl rfl rfl rfl rfl rfl rfl rfl rfl
  refine .ite (fun _ => .pure (.of_failed h₄.session (by decide))) fun _ => ?_
  refine lifts_verifyPublish h₄ ?_ ?_ h.target <;> rw [← hb₄]
  · exact hf₃
  · exact ha

end BootProgramming
