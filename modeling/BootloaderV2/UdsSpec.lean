import BootloaderV2.Session

/-!
# Requests as steps on the durable state

Every request to the programming server takes only server steps and leaves a session behind: that of
the same active slot, unless the request commissioned the journal.
-/

open BootConfig NorFlash CrashM TwoCopy

/-! ## The active slot -/

/-- In a consistent state a transaction has a slot to fall back to. -/
theorem BootLifecycle.Stuck.not_consistent {b : Board} {j : BootUpdateJournal} {x : Slot}
    (h : BootLifecycle.Stuck b j x) : ¬ Consistent b.durable := by
  intro hc
  have hm := h.rest.mirror
  obtain ⟨t, ht⟩ := hm.wellFormed.exists_target
  have hb := hc.busy j t hm.durable ht (by rw [h.state]; decide)
  obtain ⟨r, hr, hrs, hgood⟩ := (hb.active x h.active).resolve_right fun ha => by
    rw [h.state] at ha
    exact absurd ha.1 (by decide)
  rcases h.fallback with hi | ⟨-, hn⟩
  · exact absurd (hi.symm.trans hgood.1) (by decide)
  · exact hn r (View.metadata_iff.1 hr) hrs

/-- What the boot manager relies on when it settles on the active slot. -/
structure Recovered (b : Board) : Prop where
  ready : b.ram.flash.ready = true
  lifecycle : BootLifecycle.Mirror b
  update : (BootUpdate.NoJournal b ∧ b.ram.lifecycle.storageFault = true) ∨
    ∃ j, BootUpdate.Mirror b j ∧
      (j.state = BootUpdateState.idle.code ∨ j.state = BootUpdateState.aborted.code)
  faulted : b.ram.lifecycle.storageFault = true → ∀ s r, ¬ b.view.Metadata s r

namespace Recovered

variable {b b' b₂ : Board} {j : BootUpdateJournal} {s : Slot} {request : Bool}

theorem of_started {ok : Bool} (hready : b.ram.flash.ready = true)
    (hl : BootLifecycle.Mirror b) (hs : BootLifecycle.Started b ok) (hc : Consistent b.durable) :
    Recovered b := by
  refine ⟨hready, hl, ?_, fun hf s r hr => ?_⟩
  · cases hs with
    | done j hset _ _ => exact .inr ⟨j, hset.mirror, hset.state⟩
    | noJournal h hf => exact .inl ⟨h, hf⟩
    | stuck j x hst => exact absurd hc hst.not_consistent
    | lost j hset _ _ => exact .inr ⟨j, hset.mirror, hset.state⟩
  · cases hs with
    | done j _ hf' _ => exact absurd (hf'.symm.trans hf) (by decide)
    | noJournal h _ =>
      have hu : b.durable.journal = .unset := by
        cases hj : b.durable.journal with
        | unset => rfl
        | ambiguous => exact absurd hj hc.journal
        | record j => exact absurd (View.journal_iff.1 hj) (h.journal j)
      exact absurd ((View.metadata_iff.2 hr).symm.trans (hc.unset hu s)) (by simp)
    | stuck j x hst => exact absurd hc hst.not_consistent
    | lost j _ hstatus _ =>
      have := (hl s).status_valid.2 ⟨r, hr⟩
      rw [hstatus s] at this
      cases this

theorem alike (h : Recovered b) (ha : b.Alike b') : Recovered b' := by
  refine ⟨by rw [ha.flash, h.ready], ha.mirror h.lifecycle, ?_, ?_⟩
  · rw [ha.fault]
    exact h.update.imp (fun hn => ⟨hn.1.congr ha.dev ha.update, hn.2⟩) fun ⟨j, hm, hst⟩ =>
      ⟨j, hm.congr ha.dev (by rw [ha.flash]) ha.update, hst⟩
  · rw [ha.fault, ha.view]
    exact h.faulted

/-- A confirmation leaves the journal alone, and none is granted after a storage fault. -/
theorem answered (h : Recovered b) (ha : BootManager.Answered b b') : Recovered b' := by
  have hj : b'.view.journal = b.view.journal := ha.journal
  have hs := ha.steady
  refine ⟨by rw [hs.flash, h.ready], ha.mirror h.lifecycle, ?_, fun hf => ?_⟩
  · rw [hs.fault]
    refine h.update.imp (fun hn => ⟨⟨?_, ?_, ?_⟩, hn.2⟩) fun ⟨j, hm, hst⟩ =>
      ⟨j, ⟨?_, ?_, ?_, ?_, ?_⟩, hst⟩
    · intro j
      rw [View.Journal, hj]
      exact hn.1.journal j
    · rw [hs.update, hn.1.valid]
    · rw [hs.update, hn.1.fault]
    · rw [hs.flash, hm.ready]
    · rw [hs.update, hm.valid]
    · rw [hs.update, hm.fault]
    · rw [hs.update, hm.current]
    · rw [View.Journal, hj]
      exact hm.journal
  · rw [hs.fault] at hf
    cases ha with
    | none _ halike =>
      rw [halike.view]
      exact h.faulted hf
    | confirm x ok _ _ _ hc =>
      cases hc with
      | written r o hr => exact absurd ⟨o, hr⟩ (h.faulted hf x r)
      | already r hr => exact absurd hr (h.faulted hf x r)
      | refused hdev _ =>
        rw [Board.view, hdev]
        exact h.faulted hf

/-- Only the active slot of an aborted transaction is bootable. -/
theorem bootable_aborted (hm : BootUpdate.Mirror b j)
    (hst : j.state = BootUpdateState.aborted.code)
    (hs : BootUpdate.isSlotBootable b.ram.update s = true) : j.active = some s := by
  unfold BootUpdate.isSlotBootable at hs
  split at hs
  · cases hs
  rename_i hallowed
  rw [hm.current] at hallowed
  simp only [hm.valid, BootRecoveryPolicy.slotAllowed, hst, Bool.not_true, Bool.false_or,
    Bool.not_eq_true', Bool.not_eq_false, Bool.or_eq_true, Bool.and_eq_true, beq_iff_eq] at hallowed
  have hne : ¬ (BootUpdateState.aborted.code = BootUpdateState.idle.code) ∧
      ¬ (BootUpdateState.aborted.code = BootUpdateState.pendingActivation.code) := by decide
  have : s.code = j.activeSlot :=
    (hallowed.resolve_right fun h => hne.2 h.2).resolve_left hne.1
  rw [BootUpdateJournal.active, ← this, SlotId.ofCode_slot]

theorem scanned_aborted (hm : BootUpdate.Mirror b j)
    (hst : j.state = BootUpdateState.aborted.code)
    (hs : (BootManager.scanned b.ram b.mem s).valid = true) : j.active = some s := by
  unfold BootManager.scanned at hs
  split at hs
  · rename_i hb
    rw [Bool.and_eq_true] at hb
    exact bootable_aborted hm hst hb.1
  · cases hs

/-- After an aborted transaction its active slot is the one that the server takes. -/
theorem activeOf_aborted (hm : BootUpdate.Mirror b j)
    (hst : j.state = BootUpdateState.aborted.code) :
    BootManager.activeOf b request = j.active := by
  have hchosen : BootManager.chosenSlot b (BootManager.target b) = j.active := by
    unfold BootManager.chosenSlot
    cases ht : BootManager.slotOfTarget (BootManager.target b) with
    | some s =>
      obtain ⟨-, hpos, -⟩ := BootManager.of_target ht
      exact (bootable_aborted hm hst (BootManager.scanned_of_priority hpos).1).symm
    | none =>
      dsimp only
      rw [hm.valid, hm.current]
      obtain ⟨x, hx⟩ := hm.wellFormed.activeSlot
      rw [BootUpdateJournal.active, hx]
      cases x with
      | none => rfl
      | some x => cases x <;> rfl
  unfold BootManager.activeOf
  unfold BootManager.capturedSlot
  have hretained : (BootManager.scan b).retained = b.retained := rfl
  rw [hretained]
  cases BootRequest.getRequestedSlot b.retained with
  | none => exact hchosen
  | some s =>
    dsimp only
    split
    · rename_i hs
      rw [Bool.and_eq_true, BootManager.slotInfo_scan] at hs
      exact (scanned_aborted hm hst hs.2).symm
    · exact hchosen

/-- The image of a confirmed active slot is read while it is scanned. -/
theorem scanned_active (h : Recovered b) (hm : BootUpdate.Mirror b j)
    (hf : b.ram.lifecycle.storageFault = false) {r : BootSlotMetadata} (hr : b.view.Metadata s r)
    (hs : r.state = BootImageState.confirmed.code)
    (hj : j.state = BootUpdateState.idle.code ∨ j.active = some s) :
    BootManager.scanned b.ram b.mem s = BootImage.loadInfo b.mem (some s) := by
  have hl : BootLifecycle.isSlotBootable b.ram.lifecycle s = true := by
    unfold BootLifecycle.isSlotBootable
    rw [hf, (h.lifecycle s).status_valid.2 ⟨r, hr⟩, (h.lifecycle s).record r hr, hs]
    rfl
  have hu : BootUpdate.isSlotBootable b.ram.update s = true := by
    unfold BootUpdate.isSlotBootable BootRecoveryPolicy.slotAllowed
    rw [hm.valid, hm.current]
    rcases hj with hj | hj
    · simp [hj]
    · have hcode := SlotId.ofCode_eq_some hj
      have hne : s.code ≠ j.targetSlot := by
        rw [← hcode]
        exact fun he => hm.wellFormed.target_ne_active he.symm
      simp [hcode, hne]
  unfold BootManager.scanned
  rw [if_pos (by rw [hu, hl]; rfl)]

end Recovered

/-- The session that starts when the active slot is settled. -/
theorem Session.of_recovered {b b₁ b' : Board} {request : Bool} {c : BootProgramming.Context}
    {security : BootSecurity.State} {uds : BootUds.State} (h : Recovered b) (halike : b.Alike b₁)
    (hb' : b' = { b₁ with ram := { b₁.ram with
      programming := BootProgramming.initial c (BootManager.activeOf b request)
        (BootManager.versionOf b (BootManager.activeOf b request))
      security := security
      uds := uds } }) :
    Session (BootManager.activeOf b request) b' := by
  have hdev : b'.dev = b.dev := by rw [hb', halike.dev]
  have hflash : b'.ram.flash = b.ram.flash := by rw [hb', halike.flash]
  have hupdate : b'.ram.update = b.ram.update := by rw [hb', halike.update]
  have hfault : b'.ram.lifecycle.storageFault = b.ram.lifecycle.storageFault := by
    rw [hb', halike.fault]
  have hmirror : BootLifecycle.Mirror b' := by
    rw [hb']
    exact (halike.mirror h.lifecycle).congr rfl rfl rfl
  have hprog : b'.ram.programming = BootProgramming.initial c (BootManager.activeOf b request)
      (BootManager.versionOf b (BootManager.activeOf b request)) := by rw [hb']
  have hview : b'.view = b.view := by
    unfold Board.view
    rw [hdev]
  have hmem : b'.mem = b.mem := by
    unfold Board.mem
    rw [hdev]
  -- recovery has left no transaction under way
  have hidle : ∀ j, b'.view.Journal j → (j.state = BootUpdateState.idle.code ∨
      j.state = BootUpdateState.aborted.code) ∧ BootUpdate.Mirror b j := by
    intro j hj
    rw [hview] at hj
    rcases h.update with ⟨hn, -⟩ | ⟨j', hm, hst⟩
    · exact absurd hj (hn.journal j)
    · obtain rfl := hm.journal.unique hj
      exact ⟨hst, hm⟩
  have hrun : ∀ j, b'.view.Journal j → ¬ Running j := by
    intro j hj
    unfold Running
    rcases (hidle j hj).1 with hs | hs <;> rw [hs] <;> decide
  refine ⟨⟨by rw [hflash, h.ready], hmirror, ?_, ?_, ?_, ?_, ?_,
    fun j hj hr => absurd hr (hrun j hj), ?_, fun j s hj hr => absurd hr (hrun j hj)⟩, ?_, ?_⟩
  · exact h.update.imp (fun hn => hn.1.congr hdev hupdate) fun ⟨j, hm, _⟩ =>
      ⟨j, hm.congr hdev (by rw [hflash]) hupdate⟩
  · rw [hprog]
    rfl
  · rw [hprog]
    show (if BootManager.activeOf b request = none then some Slot.a
      else BootSlot.getOtherSlot (BootManager.activeOf b request)) = _
    cases BootManager.activeOf b request <;> rfl
  · rw [hview, hfault]
    exact h.faulted
  · intro j hj hs _
    obtain ⟨hst, hm⟩ := hidle j hj
    exact (Recovered.activeOf_aborted hm (hst.resolve_left hs)).symm
  · intro j s r hj hact hf hr hs hv
    obtain ⟨hst, hm⟩ := hidle j hj
    rw [hfault] at hf
    rw [hview] at hr
    rw [hmem] at hv ⊢
    have hscan := h.scanned_active hm hf hr hs (hst.imp_right fun ha => by
      exact (Recovered.activeOf_aborted hm ha).symm.trans hact)
    rw [hprog]
    show BootManager.versionOf b (BootManager.activeOf b request) = _
    rw [hact]
    unfold BootManager.versionOf
    dsimp only
    rw [hscan, if_pos hv]
  · intro hd
    rw [hprog] at hd
    cases hd
  · intro j hj hs
    refine absurd hs ?_
    rcases (hidle j hj).1 with h | h <;> rw [h] <;> decide

/-! ## Requests -/

/-- Nothing has changed but what the session and the security access are about. -/
structure Quiet (b b' : Board) : Prop where
  dev : b'.dev = b.dev
  flash : b'.ram.flash = b.ram.flash
  lifecycle : b'.ram.lifecycle = b.ram.lifecycle
  update : b'.ram.update = b.ram.update
  programming : ∃ x y, b'.ram.programming =
    { b.ram.programming with sessionActive := x, securityUnlocked := y }

namespace Quiet

variable {b b' b'' : Board} {act : SlotId}

theorem refl (b : Board) : Quiet b b := ⟨rfl, rfl, rfl, rfl, _, _, rfl⟩

theorem trans (h : Quiet b b') (h' : Quiet b' b'') : Quiet b b'' := by
  obtain ⟨x, y, hp⟩ := h.programming
  obtain ⟨x', y', hp'⟩ := h'.programming
  exact ⟨h'.dev.trans h.dev, h'.flash.trans h.flash, h'.lifecycle.trans h.lifecycle,
    h'.update.trans h.update, x', y', by rw [hp', hp]⟩

theorem session (h : Quiet b b') (hs : Session act b) : Session act b' := by
  obtain ⟨x, y, hp⟩ := h.programming
  refine hs.congr h.dev (by rw [h.flash]) h.lifecycle h.update ?_ ?_ ?_ (fun hd => ?_) ?_
  · rw [hp]
  · rw [hp]
  · rw [hp]
  · rwa [hp] at hd
  · rw [hp]

end Quiet

namespace BootUds

variable {R : View → View → Prop} {b b' : Board} {act : SlotId} {q : List Byte}

theorem runs_setAccess {session unlocked : Bool} :
    Runs R (BootProgramming.setAccess session unlocked) (fun _ b' => Quiet b b') b :=
  ⟨.refl _, rfl, rfl, rfl, rfl, _, _, rfl⟩

theorem session_abortDownload (h : Session act b) (hf : b.dev.Faultless) :
    Runs (Lift (Serves act)) abortDownload (fun _ b' => Session act b') b := by
  unfold abortDownload BootProgramming.abort
  rw [Runs.bind_getRam]
  refine .ite (fun hc => ?_) fun _ => ?_
  · obtain ⟨j, hm⟩ := h.update.resolve_left fun hn => by
      rw [hn.valid] at hc
      cases hc.1
    rw [hm.current] at hc
    obtain ⟨st, hst⟩ := hm.wellFormed.exists_state
    have hrun : Running j := hc.2
    refine (h.lifts_abort hm hf hst ((running_iff hst).1 hrun)).bind ?_
    rintro ok b₁ - ⟨-, next, hnext, hcom⟩
    rw [Runs.bind_setProgramming]
    refine ⟨.refl _, hcom.serving.congr rfl rfl rfl rfl rfl rfl rfl, fun hd => (by cases hd),
      fun j' hj' hs => ?_⟩
    obtain rfl := hj'.unique hcom.mirror.journal
    rw [hnext] at hs
    exact absurd hs (by decide)
  · rw [Runs.bind_setProgramming]
    exact ⟨.refl _, h.congr rfl rfl rfl rfl rfl rfl rfl (fun hd => (by cases hd)) rfl⟩

/-- `BootUds_MainFunction`. -/
theorem session_mainFunction (h : Session act b) (hf : b.dev.Faultless) :
    Runs (Lift (Serves act)) mainFunction (fun _ b' => Session act b') b := by
  unfold mainFunction
  rw [Runs.bind_getRam]
  refine .ite (fun _ => ?_) fun _ => .pure h
  rw [Runs.bind_setUds]
  generalize hb₁ : ({ b with ram := _ } : Board) = b₁
  have h₁ : Session act b₁ := by
    rw [← hb₁]
    exact h.congr rfl rfl rfl rfl rfl rfl rfl id rfl
  have hf₁ : b₁.dev.Faultless := by
    rw [← hb₁]
    exact hf
  split
  · exact session_abortDownload h₁ hf₁
  · exact .pure h₁

theorem session_sessionControl (h : Session act b) (hf : b.dev.Faultless) :
    Runs (Lift (Serves act)) (sessionControl q) (fun _ b' => Session act b') b := by
  unfold sessionControl BootSecurity.init
  refine .ite (fun _ => .pure h) fun _ => .ite (fun _ => .pure h) fun _ => ?_
  rw [Runs.bind_setUds, Runs.bind_setSecurity]
  refine Runs.bind (session_abortDownload ?_ ?_) ?_
  · exact h.congr rfl rfl rfl rfl rfl rfl rfl id rfl
  · exact hf
  rintro - b₁ - h₁
  exact runs_setAccess.bind fun _ _ _ hq => .pure (hq.session h₁)

/-- A program that changes nothing but the variables of `boot_security.c`. -/
theorem runs_setSecurity {α : Type} (g : Board → BootSecurity.State → BootSecurity.State)
    (a : Board → α) :
    Runs R (CrashM.get >>= fun c => BootM.setSecurity (g c) >>= fun _ => pure (a c))
      (fun _ b' => Quiet b b') b := by
  rw [Runs.bind_get, Runs.bind_setSecurity]
  exact .pure ⟨rfl, rfl, rfl, rfl, _, _, rfl⟩

theorem runs_generateSeed : Runs R BootSecurity.generateSeed (fun _ b' => Quiet b b') b :=
  runs_setSecurity (fun c s =>
    let nonce := c.ram.security.nonce * 1664525 + 1013904223
    let mixed := nonce ^^^ c.hw.canTimer
    { s with
      unlocked := false
      nonce := nonce
      seed := if mixed = 0 then 0x6D2B79F5 else mixed
      seedIssued := true }) _

theorem runs_validateKey {key : Word} :
    Runs R (BootSecurity.validateKey key) (fun _ b' => Quiet b b') b := by
  unfold BootSecurity.validateKey
  rw [Runs.bind_getRam]
  refine .ite (fun _ => ?_) fun _ => ?_
  · rw [Runs.bind_setSecurity]
    exact .pure ⟨rfl, rfl, rfl, rfl, _, _, rfl⟩
  · rw [Runs.bind_setSecurity]
    exact .pure ⟨rfl, rfl, rfl, rfl, _, _, rfl⟩

theorem runs_securityAccess :
    Runs R (securityAccess q) (fun _ b' => Quiet b b') b := by
  unfold securityAccess
  rw [Runs.bind_getRam]
  refine .ite (fun _ => .pure (.refl b)) fun _ => .ite (fun _ => ?_) fun _ =>
    .ite (fun _ => ?_) fun _ => ?_
  · refine runs_generateSeed.bind ?_
    rintro seed b₁ - h₁
    rw [Runs.bind_getRam]
    exact runs_setAccess.bind fun _ _ _ hq => .pure (h₁.trans hq)
  · refine runs_validateKey.bind ?_
    rintro ok b₁ - h₁
    refine .ite (fun _ => .pure h₁) fun _ => ?_
    rw [Runs.bind_getRam]
    exact runs_setAccess.bind fun _ _ _ hq => .pure (h₁.trans hq)
  · exact runs_setAccess.bind fun _ _ _ hq => .pure hq

/-- Reading changes nothing: the metadata that DID 0xF105 loads again are those in RAM. -/
theorem runs_readData (h : BootLifecycle.Mirror b) :
    Runs R (readData q) (fun _ b' => b' = b) b := by
  unfold readData
  refine .ite (fun _ => .pure rfl) fun _ => ?_
  dsimp only
  rw [Runs.bind_getRam]
  refine .ite (fun _ => .pure rfl) fun _ => .ite (fun _ => .pure rfl) fun _ =>
    .ite (fun _ => .pure rfl) fun _ => .ite (fun _ => .pure rfl) fun _ =>
    .ite (fun _ => ?_) fun _ => .pure rfl
  rw [h.bind_reload, Runs.bind_getRam]
  exact .pure rfl

end BootUds
