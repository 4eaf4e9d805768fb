import BootloaderV2.BootSpec
import BootloaderV2.Exact
import BootloaderV2.Initialize

/-!
# Commissioning

Routine 0xFF02 starts the journal for a slot and lets the lifecycle start again.  Commissioning asks
for an image that can be loaded; the lifecycle gives a slot its first record only if the metadata is
empty and the image has a header of its own.
-/

open BootConfig NorFlash CrashM TwoCopy

/-- The images of the two slots are as they were. -/
def SameImages (b b' : Board) : Prop := BootFlash.image b'.mem = BootFlash.image b.mem

theorem SameImages.loadInfo {b b' : Board} (h : SameImages b b') (s : SlotId) :
    BootImage.loadInfo b'.mem s = BootImage.loadInfo b.mem s := by
  rw [← BootFlash.loadInfo_image, h, BootFlash.loadInfo_image]

theorem SameImages.imageValid {b b' : Board} (h : SameImages b b') (s : Slot) :
    BootLifecycle.imageValid b'.mem s = BootLifecycle.imageValid b.mem s := by
  unfold BootLifecycle.imageValid
  rw [h.loadInfo]

theorem SameImages.of_outside {b b' : Board} (h : BootMetadata.Outside b b') : SameImages b b' := by
  obtain ⟨d, rfl, hd⟩ := h
  funext a
  unfold BootFlash.image
  split
  · rfl
  · rename_i ha
    refine hd a ?_
    have h0 : journalCopy0Address ≤ metadataSlotACopy0Address := by decide
    omega

namespace BootMetadata

variable {slot s : Slot} {b : Board} {r old : BootSlotMetadata}

/-- The metadata of the slot is VALID and CONFIRMED. -/
def Confirmed (mem : Nat → Byte) (s : Slot) : Prop :=
  ∃ r, Current s r mem ∧ r.state = BootImageState.confirmed.code

theorem Current.unique {mem : Nat → Byte} {r' : BootSlotMetadata} (h : Current s r mem)
    (h' : Current s r' mem) : r = r' := by
  obtain ⟨k, h⟩ := h
  obtain ⟨k', h'⟩ := h'
  rw [h] at h'
  cases h'
  rfl

theorem not_confirmed_of_current {mem : Nat → Byte} (h : Current s r mem)
    (hs : r.state ≠ BootImageState.confirmed.code) : ¬ Confirmed mem s := by
  rintro ⟨r', hr', hst⟩
  exact hs (h.unique hr' ▸ hst)

theorem confirmed_congr {m m' : Nat → Byte} (h : load s m' = load s m) :
    Confirmed m' s ↔ Confirmed m s := by
  unfold Confirmed Current
  rw [h]

/-- What a call that returned a record has left: it is current, and the other slot has the metadata
    it had. -/
theorem ensures_commit (hcur : Current slot old b.mem) :
    Ensures (commit slot r) (fun res b' => Outside b b' ∧
      load slot.other b'.mem = load slot.other b.mem ∧
      ∀ n, res = some n → n = completed slot (old.sequence + 1) r ∧ Current slot n b'.mem) b := by
  obtain ⟨k, hl⟩ := hcur
  have hother : Ensures (commit slot r)
      (fun _ b' => load slot.other b'.mem = load slot.other b.mem) b := by
    refine wp_mono wp_writeRecord_frame (fun _ b' h => load_otherSame ?_) fun _ _ => trivial
    rwa [Slot.other_other]
  have hstored : Ensures (commit slot r) (fun res b' => ∀ n, res = some n →
      n = completed slot (old.sequence + 1) r ∧ Current slot n b'.mem) b := by
    unfold commit writeRecord
    rw [Ensures.bind_flash, hl]
    refine .ite (fun _ => .pure fun n hn => by cases hn) fun _ => ?_
    refine .ite (fun _ => .pure fun n hn => by cases hn) fun _ => ?_
    refine Ensures.mono (.of_wp (wp_writeCopy_stored (P := BootMetadataStorage.port slot)
      (F := recordFormat slot) (le_refl _) (show flashPhraseSize ∣ metadataRecordSize by decide)
      fun hready => BootMetadataStorage.erase_unready (Bool.eq_false_of_not_eq_true hready))) ?_
    intro res b' hres n hn
    obtain ⟨rfl, hv, hw⟩ := hres n hn
    have hreg := hw.register (recordFormat_size_le slot) hl rfl hv (le_refl _)
    exact ⟨rfl, 1 - k, (hreg.2 rfl).1⟩
  exact ((Ensures.of_issues issues_writeRecord).and (hother.and hstored))

/-- The first record of a slot whose store is empty. -/
theorem ensures_initializeStore_empty (he : load slot b.mem = .empty) :
    Ensures (initializeStore slot r) (fun res b' => Outside b b' ∧
      load slot.other b'.mem = load slot.other b.mem ∧
      ∀ n, res = some n → n = completed slot 1 r ∧ Current slot n b'.mem) b := by
  have hother : Ensures (initializeStore slot r)
      (fun _ b' => load slot.other b'.mem = load slot.other b.mem) b := by
    unfold initializeStore
    rw [Ensures.bind_flash, he]
    refine .ite (fun _ => .pure rfl) fun _ => ?_
    refine wp_mono wp_writeRecord_frame (fun _ b' h => load_otherSame ?_) fun _ _ => trivial
    rwa [Slot.other_other]
  have hstored : Ensures (initializeStore slot r) (fun res b' => ∀ n, res = some n →
      n = completed slot 1 r ∧ Current slot n b'.mem) b := by
    refine Ensures.mono (.of_wp (wp_initializeStore_yields fun k o h => ?_)) ?_
    · rw [he] at h
      cases h
    intro res b' hres n hn
    obtain ⟨rfl, hiff⟩ := hres n hn
    exact ⟨rfl, hiff.2 (Format.yields_of_empty he)⟩
  exact ((Ensures.of_issues issues_initializeStore).and (hother.and hstored))

end BootMetadata

namespace BootLifecycle

open BootMetadata (Current Confirmed)

variable {b : Board} {s slot : Slot}

theorem ensures_bind_reload {β : Type} {n : BootM β} {P : β → Board → Prop} :
    Ensures (reload >>= fun _ => n) P b ↔ Ensures n P
      { b with ram := { b.ram with lifecycle := reloaded b.ram.lifecycle b.mem } } := Iff.rfl

/-- The variables of the lifecycle for a slot are the record on flash. -/
def LoadedSlot (b : Board) (s : Slot) : Prop :=
  b.ram.lifecycle.metadataStatus s = .valid → Current s (b.ram.lifecycle.metadata s) b.mem

theorem loadedSlot_reloaded (b : Board) (ram : Ram) (l : State) (s : Slot) :
    LoadedSlot { b with ram := { ram with lifecycle := reloaded l b.mem } } s := by
  intro h
  have hs : BootMetadata.status (BootMetadata.load s b.mem) = .valid := h
  cases hl : BootMetadata.load s b.mem with
  | valid k r =>
    refine ⟨k, hl.trans ?_⟩
    show Loaded.valid k r = .valid k (reloaded l b.mem |>.metadata s)
    simp only [reloaded, hl]
  | empty =>
    rw [hl] at hs
    cases hs
  | invalid =>
    rw [hl] at hs
    cases hs

/-- However `BootLifecycle_Init` ends, it has read the flash again before its last lines. -/
theorem ensures_init_captured {reason : BootResetReason} : Ensures (init reason) (fun _ b' =>
    ∃ l f, b'.ram.lifecycle = captured { reloaded l b'.mem with storageFault := f }) b := by
  have hfinished : ∀ (ok : Bool) (c : Board), Ensures (do
      reload
      captureDiagnostics
      return ok : BootM Bool) (fun _ b' =>
        ∃ l f, b'.ram.lifecycle = captured { reloaded l b'.mem with storageFault := f }) c := by
    intro ok c
    exact ⟨c.ram.lifecycle, c.ram.lifecycle.storageFault, rfl⟩
  unfold init
  rw [Ensures.bind_setLifecycle]
  refine .skip fun ok b₁ => .ite (fun _ => hfinished _ b₁) fun _ => ?_
  rw [ensures_bind_reload, Ensures.bind_getRam]
  refine .ite (fun _ => ?_) fun _ => .skip fun ok b₂ => .ite (fun _ => hfinished _ b₂) fun _ =>
    hfinished _ b₂
  -- both stores are damaged
  unfold setStorageFault captureDiagnostics
  rw [Ensures.bind_setLifecycle, Ensures.bind_setLifecycle]
  exact ⟨b₁.ram.lifecycle, true, rfl⟩

/-- The journal's variables, the images and which slots are confirmed are as they were. -/
structure Upheld (b b' : Board) : Prop where
  update : b'.ram.update = b.ram.update
  images : SameImages b b'
  fault : b'.ram.lifecycle.storageFault = b.ram.lifecycle.storageFault
  confirmed : ∀ s, Confirmed b'.mem s ↔ Confirmed b.mem s

theorem Upheld.refl (b : Board) : Upheld b b := ⟨rfl, rfl, rfl, fun _ => .rfl⟩

theorem Upheld.trans {b₁ b₂ b₃ : Board} (h : Upheld b₁ b₂) (h' : Upheld b₂ b₃) : Upheld b₁ b₃ :=
  ⟨h'.update.trans h.update, Eq.trans h'.images h.images, h'.fault.trans h.fault,
    fun s => (h'.confirmed s).trans (h.confirmed s)⟩

/-- The end of a trial turns a record that is not confirmed into another that is not. -/
theorem ensures_resolveExhaustedTrial (h : LoadedSlot b slot) :
    Ensures (resolveExhaustedTrial slot) (fun ok b' => ok = true → Upheld b b' ∧
      (LoadedSlot b slot.other → LoadedSlot b' slot.other)) b := by
  unfold resolveExhaustedTrial
  rw [Ensures.bind_flash, Ensures.bind_getRam]
  refine .ite (fun hx => ?_) fun _ => .pure fun _ => ⟨.refl b, id⟩
  obtain ⟨hstatus, htrial, -⟩ := hx
  have hcur := h hstatus
  unfold setMetadata
  rw [Ensures.bind_setLifecycle]
  -- the commit runs on a board with the flash of `b`
  have hcommit := fun (ram : Ram) (r : BootSlotMetadata) => BootMetadata.ensures_commit
    (b := { b with ram := ram }) (r := r) hcur
  refine (hcommit _ _).bind ?_
  rintro res b' ⟨hout, hother, hres⟩
  cases res with
  | none => exact .skip fun _ _ => .pure fun h => by cases h
  | some n =>
    obtain ⟨rfl, hn⟩ := hres n rfl
    dsimp only
    rw [Ensures.bind_setLifecycle]
    refine .pure fun _ => ⟨?_, fun hl hs => ?_⟩
    · have himages := SameImages.of_outside hout
      obtain ⟨d, rfl, -⟩ := hout
      refine ⟨rfl, himages, rfl, fun s => ?_⟩
      by_cases hs : s = slot
      · subst hs
        -- the record was on trial and is now invalid
        refine iff_of_false (BootMetadata.not_confirmed_of_current hn ?_)
          (BootMetadata.not_confirmed_of_current hcur ?_)
        · show BootImageState.invalid.code ≠ _
          decide
        · rw [htrial]
          decide
      · rw [Slot.eq_other_of_ne hs]
        exact BootMetadata.confirmed_congr hother
    · obtain ⟨d, rfl, -⟩ := hout
      obtain ⟨k, hk⟩ := hl (by simpa using hs)
      refine ⟨k, hother.trans (hk.trans ?_)⟩
      simp
  
theorem ensures_resolveExhaustedTrials (h : ∀ s, LoadedSlot b s) :
    Ensures resolveExhaustedTrials (fun ok b' => ok = true → Upheld b b') b := by
  unfold resolveExhaustedTrials
  refine (ensures_resolveExhaustedTrial (h .a)).bind fun ok b₁ h₁ => ?_
  refine .ite (fun _ => .pure fun h => by cases h) fun hok => ?_
  obtain ⟨hup, hload⟩ := h₁ (by simpa using hok)
  have hloadB : LoadedSlot b₁ .b := hload (h .b)
  refine (ensures_resolveExhaustedTrial hloadB).mono fun ok b₂ h₂ hok₂ => ?_
  exact hup.trans (h₂ hok₂).1

/-- The slot can be given its first record: its metadata is empty and its image has a header. -/
def Admissible (mem : Nat → Byte) (s : Slot) : Prop :=
  BootMetadata.load s mem = .empty ∧ imageValid mem s = true

/-- What `reconcile_journal` does after a commissioning of `s`. -/
theorem ensures_reconcileCommissioned :
    Ensures (reconcileCommissioned (some s)) (fun ok b' => ok = true →
      b'.ram.update = b.ram.update ∧ SameImages b b' ∧
      b'.ram.lifecycle.storageFault = b.ram.lifecycle.storageFault ∧
      (Confirmed b'.mem s ↔ Confirmed b.mem s ∨ Admissible b.mem s)) b := by
  unfold reconcileCommissioned
  dsimp only
  rw [ensures_bind_reload, Ensures.bind_flash, Ensures.bind_getRam]
  have hempty : BootMetadata.status (BootMetadata.load s b.mem) = .empty ↔
      BootMetadata.load s b.mem = .empty := by
    cases BootMetadata.load s b.mem <;> simp [BootMetadata.status]
  refine .ite (fun hc => ?_) fun hc => .pure fun _ => ⟨rfl, rfl, rfl, ?_⟩
  · have he := hempty.1 hc.1
    have hstore := fun (ram : Ram) (r : BootSlotMetadata) =>
      BootMetadata.ensures_initializeStore_empty (b := { b with ram := ram }) (r := r) he
    unfold initializeConfirmed
    rw [Ensures.bind_getRam]
    refine (hstore _ _).bind ?_
    rintro res b' ⟨hout, -, hres⟩
    refine .ite (fun hsome => .pure fun _ => ?_) fun _ => .skip fun _ _ => .pure fun h => by cases h
    obtain ⟨n, rfl⟩ := Option.isSome_iff_exists.1 hsome
    obtain ⟨rfl, hn⟩ := hres n rfl
    have himages := SameImages.of_outside hout
    obtain ⟨d, rfl, -⟩ := hout
    refine ⟨rfl, himages, rfl, iff_of_true ⟨_, hn, rfl⟩ (.inr ⟨he, hc.2⟩)⟩
  · constructor
    · exact .inl
    · rintro (h | ⟨he, hv⟩)
      · exact h
      · exact absurd ⟨hempty.2 he, hv⟩ hc

/-- The journal's variables after a commissioning of `s`. -/
def commissionedUpdate (s : Slot) : BootUpdate.State :=
  ⟨BootJournal.completed 1 (BootUpdate.commissionRecord (some s)), true, false, false⟩

/-- `reconcile_journal` comes to the branch of a commissioned journal. -/
theorem reconcileJournal_commissioned (hu : b.ram.update = commissionedUpdate s) :
    reconcileJournal b = reconcileCommissioned (some s) b := by
  have hstate : b.ram.update.current.state = BootUpdateState.aborted.code := by
    rw [hu]
    rfl
  have hresult : b.ram.update.current.lastResult = BootUpdateResult.commissioned.code := by
    rw [hu]
    rfl
  have hactive : SlotId.ofCode b.ram.update.current.activeSlot = some s := by
    rw [hu]
    exact SlotId.ofCode_slot s
  show (if _ then _ else if _ then _ else if _ then _ else _ : BootM Bool) b = _
  rw [if_neg (by simp [hu, commissionedUpdate]),
    if_neg (fun h => absurd (h.symm.trans hstate) (by decide)), if_pos ⟨hstate, hresult⟩, hactive]

theorem ensures_reconcileJournal (hu : b.ram.update = commissionedUpdate s) :
    Ensures reconcileJournal (fun ok b' => ok = true →
      b'.ram.update = b.ram.update ∧ SameImages b b' ∧
      b'.ram.lifecycle.storageFault = b.ram.lifecycle.storageFault ∧
      (Confirmed b'.mem s ↔ Confirmed b.mem s ∨ Admissible b.mem s)) b := by
  unfold Ensures wp
  rw [reconcileJournal_commissioned hu]
  exact ensures_reconcileCommissioned

/-- The variables after the last lines of `BootLifecycle_Init` tell that a confirmed slot is. -/
theorem confirmed_finished (h : Confirmed b.mem s) :
    (finished b).ram.lifecycle.metadataStatus s = .valid ∧
      ((finished b).ram.lifecycle.metadata s).state = BootImageState.confirmed.code := by
  obtain ⟨r, ⟨k, hk⟩, hst⟩ := h
  have hcap := captured_eq (reloaded b.ram.lifecycle b.mem)
  have hstatus : (finished b).ram.lifecycle.metadataStatus s =
      BootMetadata.status (BootMetadata.load s b.mem) := congrFun hcap.2.1 s
  have hrecord : (finished b).ram.lifecycle.metadata s = r := by
    refine (congrFun hcap.1 s).trans ?_
    simp only [reloaded, hk]
  refine ⟨?_, by rw [hrecord, hst]⟩
  rw [hstatus, hk]
  rfl

/-- What a successful start of the lifecycle has left after a commissioning of `s`. -/
structure Restarted (b : Board) (s : Slot) (b' : Board) : Prop where
  update : b'.ram.update = b.ram.update
  images : SameImages b b'
  fault : b'.ram.lifecycle.storageFault = false
  confirmed : Confirmed b'.mem s ↔ Confirmed b.mem s ∨ Admissible b.mem s
  status : Confirmed b'.mem s → b'.ram.lifecycle.metadataStatus s = .valid
  state : Confirmed b'.mem s → (b'.ram.lifecycle.metadata s).state = BootImageState.confirmed.code

theorem ensures_init {reason : BootResetReason} (hu : b.ram.update = commissionedUpdate s) :
    Ensures (init reason) (fun ok b' => ok = true → Restarted b s b') b := by
  unfold init
  rw [Ensures.bind_setLifecycle]
  refine (ensures_reconcileJournal (b := entered b reason) hu).bind fun ok b₁ h₁ => ?_
  refine .ite (fun _ => .skip fun _ _ => .skip fun _ _ => .pure fun h => by cases h) fun hok => ?_
  obtain ⟨hupdate, himages, hfault, hconf⟩ := h₁ (by simpa using hok)
  rw [ensures_bind_reload, Ensures.bind_getRam]
  refine .ite (fun _ => .skip fun _ _ => .skip fun _ _ => .pure fun h => by cases h) fun _ => ?_
  refine (ensures_resolveExhaustedTrials (loadedSlot_reloaded b₁ _ _)).bind fun ok b₂ h₂ => ?_
  refine .ite (fun _ => .skip fun _ _ => .skip fun _ _ => .pure fun h => by cases h) fun hok => ?_
  have hup := h₂ (by simpa using hok)
  rw [ensures_bind_reload]
  show Ensures (pure true) (fun ok b' => ok = true → Restarted b s b') (finished b₂)
  refine .pure fun _ => ?_
  refine ⟨hup.update.trans hupdate, Eq.trans hup.images himages, ?_, ?_, ?_, ?_⟩
  · exact (finished_fault b₂).trans (hup.fault.trans hfault)
  · exact (hup.confirmed s).trans hconf
  · exact fun h => (confirmed_finished (b := b₂) h).1
  · exact fun h => (confirmed_finished (b := b₂) h).2

end BootLifecycle

open BootLifecycle (commissionedUpdate) in
/-- What a successful `BootUpdate_InitializeJournal` has left. -/
theorem BootUpdate.ensures_initializeJournal {b : Board} {s : Slot} :
    Ensures (initializeJournal (some s)) (fun ok b' => ok = true →
      b'.ram.update = commissionedUpdate s ∧ SameImages b b' ∧
      (BootImage.loadInfo b.mem (some s)).valid = true ∧
      ∀ x, BootMetadata.load x b'.mem = BootMetadata.load x b.mem) b := by
  have hwrite : (∀ k o, BootJournal.loadLatest b.mem ≠ .valid k o) →
      Ensures (BootJournal.initializeStore (commissionRecord (some s))) (fun res b' =>
        (∃ d, b' = b.setDev d ∧ ∀ a, a < journalCopy0Address ∨ metadataSlotACopy0Address ≤ a →
          d.mem a = b.mem a) ∧
        ∀ r, res = some r → r = BootJournal.completed 1 (commissionRecord (some s))) b := by
    intro hl
    refine ((Ensures.of_issues BootJournal.issues_initializeStore).and
      (.of_wp (BootJournal.wp_initializeStore_yields hl))).mono ?_
    rintro res b' ⟨⟨d, rfl, hd, -⟩, hres⟩
    exact ⟨⟨d, rfl, hd⟩, fun r hr => (hres r hr).1⟩
  have hrun : (∀ k o, BootJournal.loadLatest b.mem ≠ .valid k o) →
      Ensures (initializeUnset b.mem (some s)) (fun ok b' => ok = true →
        b'.ram.update = commissionedUpdate s ∧ SameImages b b' ∧
        (BootImage.loadInfo b.mem (some s)).valid = true ∧
        ∀ x, BootMetadata.load x b'.mem = BootMetadata.load x b.mem) b := by
    intro hl
    refine .ite (fun _ => .pure fun h => by cases h) fun hallowed => ?_
    refine (hwrite hl).bind ?_
    rintro res b' ⟨⟨d, rfl, hd⟩, hres⟩
    cases res with
    | none => exact .skip fun _ _ => .pure fun h => by cases h
    | some next =>
      obtain rfl := hres next rfl
      dsimp only
      rw [Ensures.bind_setUpdate]
      refine .pure fun _ => ⟨rfl, ?_, ?_, fun x => ?_⟩
      · funext a
        show (if _ then (0 : Byte) else d.mem a) = if _ then 0 else b.mem a
        split
        · rfl
        · rename_i ha
          have h0 : metadataSlotACopy0Address ≤ BootFlash.recordsEnd := by decide
          exact hd a (by omega)
      · simpa [commissionAllowed] using hallowed
      · refine (BootMetadata.recordFormat x).load_congr fun k i hi => hd _ (.inr ?_)
        have hk := View.metadataAddress_range x k
        omega
  unfold initializeJournal
  rw [Ensures.bind_flash]
  cases hl : BootJournal.loadLatest b.mem with
  | valid k o => exact .pure fun h => by cases h
  | empty =>
    refine hrun fun k o h => ?_
    rw [hl] at h
    cases h
  | invalid =>
    refine hrun fun k o h => ?_
    rw [hl] at h
    cases h

namespace BootManager

/-- The choice of `BootManager_SelectBootTarget`. -/
theorem selectBootTarget_done (b : Board) : ∃ b', selectBootTarget b = .done
    (BootLifecycle.selected b.ram.lifecycle (scanned b.ram b.mem .a) (scanned b.ram b.mem .b)) b' := by
  have hrun : wp selectBootTarget (fun target _ => target = BootLifecycle.selected b.ram.lifecycle
      (scanned b.ram b.mem .a) (scanned b.ram b.mem .b)) (fun _ => False) b := by
    unfold selectBootTarget BootLifecycle.select
    rw [wp_bind, BootM.wp_getRam, wp_bind, BootM.wp_flash, wp_bind, BootM.wp_setManager, wp_bind,
      BootM.wp_getRam, wp_ite]
    split
    · exact wp_bind.2 rfl
    · exact rfl
  obtain ⟨target, b', hdone, rfl⟩ := wp_done hrun
  exact ⟨b', hdone⟩

/-- Only the slot that was commissioned can be scanned. -/
theorem scanned_other {ram : Ram} {mem : Nat → Byte} {s : Slot}
    (hu : ram.update = BootLifecycle.commissionedUpdate s) :
    scanned ram mem s.other = BootImage.zeroInfo := by
  unfold scanned BootUpdate.isSlotBootable
  rw [hu]
  cases s <;> rfl

theorem scanned_commissioned {ram : Ram} {mem : Nat → Byte} {s : Slot}
    (hu : ram.update = BootLifecycle.commissionedUpdate s) :
    scanned ram mem s = if BootLifecycle.isSlotBootable ram.lifecycle s then
      BootImage.loadInfo mem (some s) else BootImage.zeroInfo := by
  have hb : BootUpdate.isSlotBootable ram.update s = true := by
    rw [hu]
    cases s <;> rfl
  unfold scanned
  rw [hb, Bool.true_and]

end BootManager

namespace BootLifecycle

/-- The slot is confirmed, the next boot starts it, and the other slot can be updated. -/
structure Bootable (b : Board) (s : Slot) : Prop where
  metadata : BootMetadata.Confirmed b.mem s
  target : ∃ b', BootManager.selectBootTarget b = .done (targetOf s) b'
  update : canStartUpdate b.ram.lifecycle (some s) (some s.other) = true

theorem Restarted.bootable {b b' : Board} {s : Slot} (h : Restarted b s b')
    (hu : b.ram.update = commissionedUpdate s)
    (himage : (BootImage.loadInfo b'.mem (some s)).valid = true)
    (hc : BootMetadata.Confirmed b'.mem s) : Bootable b' s := by
  have hstatus := h.status hc
  have hstate := h.state hc
  have hu' := h.update.trans hu
  have hother : BootManager.scanned b'.ram b'.mem s.other = BootImage.zeroInfo :=
    BootManager.scanned_other hu'
  have hself : BootManager.scanned b'.ram b'.mem s = _ := BootManager.scanned_commissioned hu'
  have hboot : isSlotBootable b'.ram.lifecycle s = true := by
    unfold isSlotBootable
    rw [h.fault, hstatus, hstate]
    decide
  rw [if_pos hboot] at hself
  refine ⟨hc, ?_, ?_⟩
  · obtain ⟨b₂, hb₂⟩ := BootManager.selectBootTarget_done b'
    refine ⟨b₂, hb₂.trans (congrArg (Outcome.done · b₂) ?_)⟩
    unfold selected BootPolicy.selectLifecycle
    -- the other slot has no weight, this one that of a confirmed image
    cases s with
    | a =>
      rw [show BootManager.scanned b'.ram b'.mem .b = BootImage.zeroInfo from hother, hself]
      simp [h.fault, hstatus, hstate, himage, BootImage.zeroInfo, BootPolicy.lifecyclePriority,
        BootImageState.code, targetOf]
    | b =>
      rw [show BootManager.scanned b'.ram b'.mem .a = BootImage.zeroInfo from hother, hself]
      simp [h.fault, hstatus, hstate, himage, BootImage.zeroInfo, BootPolicy.lifecyclePriority,
        BootImageState.code, targetOf]
  · unfold canStartUpdate
    rw [if_neg (by simp [h.fault])]
    simp [hstatus, hstate]

theorem imageValid_iff_not_legacy {mem : Nat → Byte} {s : Slot}
    (h : (BootImage.loadInfo mem (some s)).valid = true) :
    imageValid mem s = true ↔ (BootImage.loadInfo mem (some s)).legacyFormat = false := by
  obtain ⟨d, hd⟩ : ∃ d, BootSlot.getDescriptor (some s) = some d := by cases s <;> exact ⟨_, rfl⟩
  unfold imageValid
  unfold BootImage.loadInfo at h ⊢
  rw [hd] at h ⊢
  dsimp only at h ⊢
  split
  · rename_i hlegacy
    rw [if_pos hlegacy] at h
    unfold BootImage.loadLegacySlotA at h ⊢
    dsimp only at h ⊢
    -- only the last branch answers with a valid image
    split at h
    · cases h
    split at h
    · cases h
    split at h
    · cases h
    rename_i h₁ h₂ h₃
    rw [if_neg h₁, if_neg h₂, if_neg h₃]
    show (((BootImageValidationResult.validLegacy == .valid) && true) = true ↔ true = false)
    decide
  · rename_i hlegacy
    rw [if_neg hlegacy] at h
    rw [h]
    rw [BootImage.validate_valid] at h
    rw [h]
    refine iff_of_true rfl ?_
    unfold BootImage.validate
    split <;> rfl

/-- Which metadata a successful commissioning leaves confirmed. -/
theorem confirmed_commissioned {b b₁ b₂ : Board} {s : Slot} {reason : BootResetReason}
    (hcommission : BootUpdate.initializeJournal (some s) b = .done true b₁)
    (hinit : init reason b₁ = .done true b₂) :
    BootMetadata.Confirmed b₂.mem s ↔ BootMetadata.Confirmed b.mem s ∨ Admissible b.mem s := by
  obtain ⟨hu, himages, -, hmeta⟩ := BootUpdate.ensures_initializeJournal.of_done hcommission rfl
  have h := (ensures_init hu).of_done hinit rfl
  -- the metadata and the images are those from before the commissioning
  rw [h.confirmed, BootMetadata.confirmed_congr (hmeta s)]
  unfold Admissible
  rw [hmeta s, himages.imageValid]

/-- Routine 0xFF02 with a slot has succeeded: the journal was started and the lifecycle started
    again.  The slot is bootable if and only if its metadata, as it was before, is confirmed, or is
    empty while the image is not in the legacy format. -/
theorem commission_bootable_iff {b b₁ b₂ : Board} {s : Slot} {reason : BootResetReason}
    (hcommission : BootUpdate.initializeJournal (some s) b = .done true b₁)
    (hinit : init reason b₁ = .done true b₂) :
    Bootable b₂ s ↔ BootMetadata.Confirmed b.mem s ∨
      (BootMetadata.load s b.mem = .empty ∧
        (BootImage.loadInfo b.mem (some s)).legacyFormat = false) := by
  obtain ⟨hu, himages, hvalid, -⟩ :=
    BootUpdate.ensures_initializeJournal.of_done hcommission rfl
  have h := (ensures_init hu).of_done hinit rfl
  have hiff := confirmed_commissioned hcommission hinit
  have hlegacy := imageValid_iff_not_legacy hvalid
  constructor
  · intro hb
    exact (hiff.1 hb.metadata).imp_right fun ha => ⟨ha.1, hlegacy.1 ha.2⟩
  · intro hc
    refine h.bootable hu ?_ (hiff.2 (hc.imp_right fun ha => ⟨ha.1, hlegacy.2 ha.2⟩))
    rw [h.images.loadInfo, himages.loadInfo, hvalid]

end BootLifecycle

/-! ## Commissioning on erased records -/

/-- The sectors of the journal and the metadata are erased. -/
def RecordsErased (mem : Nat → Byte) : Prop :=
  ∀ a, journalCopy0Address ≤ a → a < BootFlash.recordsEnd → mem a = 0xFF

theorem RecordsErased.metadata {mem : Nat → Byte} (h : RecordsErased mem) (s : Slot) :
    BootMetadata.load s mem = .empty := by
  refine (BootMetadata.recordFormat s).load_blank fun k i hi => ?_
  have hk := View.metadataAddress_range s k
  have hsize : i < 80 := hi
  have h0 : journalCopy0Address ≤ metadataSlotACopy0Address := by decide
  have hsec : (80 : Nat) ≤ flashSectorSize := by decide
  exact h _ (by omega) (by omega)

theorem RecordsErased.journal {mem : Nat → Byte} (h : RecordsErased mem) :
    BootJournal.loadLatest mem = .empty := by
  refine BootJournal.recordFormat.load_blank fun k i hi => ?_
  have hk := View.journalAddress_range k
  have hsize : i < 128 := hi
  have h0 : metadataSlotACopy0Address ≤ BootFlash.recordsEnd := by decide
  have hsec : (128 : Nat) ≤ flashSectorSize := by decide
  exact h _ (by omega) (by omega)

namespace BootLifecycle

variable {b : Board} {s : Slot}

theorem wp_bind_reload {β : Type} {n : BootM β} {Q : β → Board → Prop} {C : Board → Prop} :
    wp (reload >>= fun _ => n) Q C b ↔ wp n Q C
      { b with ram := { b.ram with lifecycle := reloaded b.ram.lifecycle b.mem } } := Iff.rfl

/-- No slot is on trial and not both stores are damaged. -/
structure Calm (b : Board) : Prop where
  status : ∃ x, BootMetadata.load x b.mem ≠ .invalid
  trial : ∀ x r, BootMetadata.Current x r b.mem → r.state ≠ BootImageState.trial.code

theorem wp_resolveExhaustedTrials_calm (h : Calm b) (hl : ∀ x, LoadedSlot b x) :
    wp resolveExhaustedTrials (fun ok b' => ok = true ∧ b' = b) (fun _ => False) b := by
  have hone : ∀ x, wp (resolveExhaustedTrial x) (fun ok b' => ok = true ∧ b' = b)
      (fun _ => False) b := by
    intro x
    unfold resolveExhaustedTrial
    rw [wp_bind, BootM.wp_flash, wp_bind, BootM.wp_getRam, wp_ite, if_neg]
    · exact ⟨rfl, rfl⟩
    · rintro ⟨hs, ht, -⟩
      exact h.trial x _ (hl x hs) ht
  unfold resolveExhaustedTrials
  refine wp_seq (hone .a) ?_ fun _ h => h
  rintro ok b' ⟨rfl, rfl⟩
  exact hone .b

/-- With both stores empty the first record of a slot can be written. -/
theorem wp_initializeConfirmed_erased {image : BootImageInfo} {counter : Word}
    (hready : b.ram.flash.ready = true) (hf : b.dev.Faultless) (hc : b.dev.Uncut)
    (hempty : ∀ x, BootMetadata.load x b.mem = .empty) :
    wp (initializeConfirmed s image counter) (fun ok b' => ok = true ∧ Calm b') (fun _ => False)
      b := by
  obtain ⟨r, b', hdone⟩ := BootMetadata.initializeStore_done hready (hempty s) hf hc rfl
    (BootMetadata.wellFormed_confirmedRecord s image.header.softwareVersion counter
      b.ram.lifecycle.currentResetReason)
  obtain ⟨-, hother, hres⟩ := (BootMetadata.ensures_initializeStore_empty (hempty s)).of_done hdone
  obtain ⟨rfl, hcur⟩ := hres r rfl
  unfold initializeConfirmed
  rw [wp_bind, BootM.wp_getRam, wp_bind]
  unfold wp
  rw [hdone]
  refine ⟨rfl, ⟨s, ?_⟩, fun x r hr => ?_⟩
  · obtain ⟨k, hk⟩ := hcur
    rw [hk]
    exact fun h => by cases h
  · by_cases hx : x = s
    · subst hx
      rw [hr.unique hcur]
      show BootImageState.confirmed.code ≠ _
      decide
    · obtain ⟨k, hk⟩ := hr
      rw [Slot.eq_other_of_ne hx, hother] at hk
      cases (hempty s.other).symm.trans hk

theorem wp_reconcileCommissioned_erased (hready : b.ram.flash.ready = true) (hf : b.dev.Faultless)
    (hc : b.dev.Uncut) (hempty : ∀ x, BootMetadata.load x b.mem = .empty) :
    wp (reconcileCommissioned (some s)) (fun ok b' => ok = true ∧ Calm b') (fun _ => False) b := by
  unfold reconcileCommissioned
  dsimp only
  rw [wp_bind_reload, wp_bind, BootM.wp_flash, wp_bind, BootM.wp_getRam, wp_ite]
  split
  · exact wp_initializeConfirmed_erased hready hf hc hempty
  · refine ⟨rfl, ⟨s, ?_⟩, fun x r ⟨k, hk⟩ => ?_⟩
    · show BootMetadata.load s b.mem ≠ _
      rw [hempty s]
      exact fun h => by cases h
    · cases (hempty x).symm.trans hk

theorem init_erased_done (reason : BootResetReason) (hu : b.ram.update = commissionedUpdate s)
    (hready : b.ram.flash.ready = true) (hf : b.dev.Faultless) (hc : b.dev.Uncut)
    (hempty : ∀ x, BootMetadata.load x b.mem = .empty) :
    ∃ b', init reason b = .done true b' := by
  have hrun : wp (init reason) (fun ok _ => ok = true) (fun _ => False) b := by
    unfold init
    rw [wp_bind, BootM.wp_setLifecycle]
    have hrec : wp reconcileJournal (fun ok b' => ok = true ∧ Calm b') (fun _ => False)
        (entered b reason) := by
      unfold wp
      rw [reconcileJournal_commissioned (s := s) (b := entered b reason) hu]
      exact wp_reconcileCommissioned_erased (b := entered b reason) hready hf hc hempty
    refine wp_seq hrec ?_ fun _ h => h
    rintro ok b₁ ⟨rfl, hcalm⟩
    rw [wp_ite, if_neg (by decide), wp_bind_reload, wp_bind, BootM.wp_getRam, wp_ite, if_neg]
    swap
    · rintro ⟨ha, hb⟩
      obtain ⟨x, hx⟩ := hcalm.status
      have hinv : BootMetadata.status (BootMetadata.load x b₁.mem) = .invalid := by
        cases x with
        | a => exact ha
        | b => exact hb
      cases hl : BootMetadata.load x b₁.mem with
      | valid k r =>
        rw [hl] at hinv
        cases hinv
      | empty =>
        rw [hl] at hinv
        cases hinv
      | invalid => exact hx hl
    refine wp_seq (wp_resolveExhaustedTrials_calm ⟨hcalm.status, hcalm.trial⟩
      (loadedSlot_reloaded b₁ _ _)) ?_ fun _ h => h
    rintro ok b₂ ⟨rfl, -⟩
    exact rfl
  obtain ⟨ok, b', hdone, rfl⟩ := wp_done hrun
  exact ⟨b', hdone⟩

end BootLifecycle

theorem BootUpdate.wellFormed_commissionRecord (active : SlotId) :
    BootJournal.WellFormed (commissionRecord active) := by
  rcases active with _ | _ | _
  · exact ⟨by decide, by decide, ⟨none, rfl⟩, ⟨.a, rfl⟩, by decide, by decide, by decide,
      by decide, by decide, fun _ h => absurd h (by decide), fun _ h => absurd h (by decide)⟩
  · exact ⟨by decide, by decide, ⟨some .a, rfl⟩, ⟨.b, rfl⟩, by decide, by decide, by decide,
      by decide, by decide, fun _ h => absurd h (by decide), fun _ h => absurd h (by decide)⟩
  · exact ⟨by decide, by decide, ⟨some .b, rfl⟩, ⟨.a, rfl⟩, by decide, by decide, by decide,
      by decide, by decide, fun _ h => absurd h (by decide), fun _ h => absurd h (by decide)⟩

open BootUpdate in
/-- An empty journal is started on a healthy device when the images agree with the claim. -/
theorem BootUpdate.completes_initializeJournal {b : Board} {active : SlotId}
    (hready : b.ram.flash.ready = true) (hd : b.dev.Healthy)
    (hempty : BootJournal.loadLatest b.mem = .empty)
    (hallowed : commissionAllowed b.mem active = true) :
    Completes (initializeJournal active) (fun ok b' => ok = true ∧ b'.dev.Healthy ∧ InStep b' ∧
      JournalOnly b.mem b'.mem ∧ b' = withUpdate b b'.dev
        ⟨BootJournal.completed 1 (commissionRecord active), true, false, false⟩) b := by
  obtain ⟨r, b₁, hstore⟩ := BootJournal.initializeStore_done hready
    (.inl (BootJournal.recordFormat.load_empty_iff.1 hempty)) (wellFormed_commissionRecord active)
    hd.1 hd.2
  have hev := (BootJournal.issues_initializeStore (b := b) (r := commissionRecord active)).evolves
  rw [hstore] at hev
  obtain ⟨d, rfl, hout, -⟩ := (Ensures.of_issues (BootJournal.issues_initializeStore (b := b)
    (r := commissionRecord active))).of_done hstore
  have hno : ∀ k o, BootJournal.loadLatest b.mem ≠ .valid k o := by
    intro k o h
    rw [hempty] at h
    cases h
  obtain ⟨rfl, hcur⟩ := wp_of_eq_done (BootJournal.wp_initializeStore_yields hno) hstore r rfl
  have hdone : initializeJournal active b = .done true
      (withUpdate b d ⟨BootJournal.completed 1 (commissionRecord active), true, false, false⟩) := by
    rw [initializeJournal_unset hno]
    unfold initializeUnset
    rw [if_neg (by simp [hallowed])]
    show (BootJournal.initializeStore _ >>= _) b = _
    simp only [Bind.bind, hstore]
    rfl
  unfold Completes wp
  rw [hdone]
  exact ⟨rfl, ⟨hev.faultless hd.1, hev.uncut hd.2⟩,
    ⟨rfl, hcur.2 (Format.yields_of_empty hempty)⟩, hout, rfl⟩

/-- On erased records, without faults and cuts, a slot whose image can be loaded is commissioned. -/
theorem commission_erased_done {b : Board} {s : Slot} (reason : BootResetReason)
    (hready : b.ram.flash.ready = true) (hf : b.dev.Faultless) (hc : b.dev.Uncut)
    (herased : RecordsErased b.mem) (himage : (BootImage.loadInfo b.mem (some s)).valid = true) :
    ∃ b₁ b₂, BootUpdate.initializeJournal (some s) b = .done true b₁ ∧
      BootLifecycle.init reason b₁ = .done true b₂ := by
  have hallowed : BootUpdate.commissionAllowed b.mem (some s) = true := himage
  obtain ⟨ok, b₁, hb₁, rfl, hd₁, -, -, hboard⟩ :=
    (BootUpdate.completes_initializeJournal hready ⟨hf, hc⟩ herased.journal hallowed).exists_done
  obtain ⟨hu, -, -, hmeta⟩ := BootUpdate.ensures_initializeJournal.of_done hb₁ rfl
  have hready₁ : b₁.ram.flash.ready = true := by
    rw [hboard]
    exact hready
  obtain ⟨b₂, hb₂⟩ := BootLifecycle.init_erased_done reason hu hready₁ hd₁.1 hd₁.2
    fun x => by
      rw [hmeta x]
      exact herased.metadata x
  exact ⟨b₁, b₂, hb₁, hb₂⟩

/-! ## Two images in slot A -/

/-- The memory with words stored from an address on. -/
def storeWords (base : Nat) (words : List Word) (mem : Nat → Byte) : Nat → Byte :=
  place base (4 * words.length) (Words.byteOf fun k => words.getD k 0) mem

/-- The shortest program of slot A, its two vectors, on erased flash. -/
def shortestProgram : Nat → Byte := storeWords slotABaseAddress [0x20000000, 0x8005] fun _ => 0xFF

/-- The program with the metadata of the legacy format. -/
def legacyImage : Nat → Byte :=
  storeWords BootConfig.metadataAddress
    [metadataMagic, 8, 0x72081BDF, 0x010000, metadataValid, 0] shortestProgram

/-- The header of the program. -/
def shortestHeader : BootImageHeader :=
  { BootImageHeader.zero with
    magic := BootImage.headerMagic
    headerVersion := BootImage.headerVersion
    imageSize := 8
    imageCrc32 := 0x72081BDF
    softwareVersion := 0x01000000
    vectorAddress := 0x8000
    entryAddress := 0x8005
    headerCrc32 := 0x0F7616E9 }

/-- The program with its header. -/
def packedImage : Nat → Byte :=
  storeWords slotAHeaderAddress shortestHeader.toList shortestProgram

def boardOf (mem : Nat → Byte) : Board := { Board.blank with dev := ⟨mem, [], []⟩ }

theorem recordsErased_storeWords {base : Nat} {words : List Word} {mem : Nat → Byte}
    (h : RecordsErased mem)
    (hbase : base + 4 * words.length ≤ journalCopy0Address ∨ BootFlash.recordsEnd ≤ base) :
    RecordsErased (storeWords base words mem) := by
  intro a ha ha'
  rw [storeWords, place_outside (by omega)]
  exact h a ha ha'

theorem recordsErased_shortestProgram : RecordsErased shortestProgram :=
  recordsErased_storeWords (fun _ _ _ => rfl) (.inl (by decide))

theorem recordsErased_legacyImage : RecordsErased legacyImage :=
  recordsErased_storeWords recordsErased_shortestProgram (.inr (by decide))

theorem recordsErased_packedImage : RecordsErased packedImage :=
  recordsErased_storeWords recordsErased_shortestProgram (.inl (by decide))

theorem loadInfo_packedImage : (BootImage.loadInfo packedImage (some .a)).valid = true ∧
    (BootImage.loadInfo packedImage (some .a)).legacyFormat = false := by
  constructor <;> decide +kernel

/-- A slot with a packed image and empty metadata is bootable once it is commissioned. -/
theorem commission_bootable_packed : ∃ b₁ b₂,
    BootUpdate.initializeJournal (some .a) (boardOf packedImage) = .done true b₁ ∧
    BootLifecycle.init .software b₁ = .done true b₂ ∧ BootLifecycle.Bootable b₂ .a := by
  obtain ⟨himage, hformat⟩ := loadInfo_packedImage
  obtain ⟨b₁, b₂, hcommission, hinit⟩ := commission_erased_done (b := boardOf packedImage)
    (s := .a) .software rfl (fun _ h => by cases h) (fun _ h => by cases h)
    recordsErased_packedImage himage
  exact ⟨b₁, b₂, hcommission, hinit, (BootLifecycle.commission_bootable_iff hcommission hinit).2
    (.inr ⟨recordsErased_packedImage.metadata .a, hformat⟩)⟩

/-- A legacy image in slot A is commissioned, and the slot is not bootable. -/
theorem commission_legacy_stranded : ∃ b₁ b₂,
    BootUpdate.initializeJournal (some .a) (boardOf legacyImage) = .done true b₁ ∧
    BootLifecycle.init .software b₁ = .done true b₂ ∧ ¬ BootLifecycle.Bootable b₂ .a := by
  have himage : (BootImage.loadInfo legacyImage (some .a)).valid = true := by decide +kernel
  have hformat : BootLifecycle.imageValid legacyImage .a = false := by decide +kernel
  obtain ⟨b₁, b₂, hcommission, hinit⟩ := commission_erased_done (b := boardOf legacyImage)
    (s := .a) .software rfl (fun _ h => by cases h) (fun _ h => by cases h)
    recordsErased_legacyImage himage
  refine ⟨b₁, b₂, hcommission, hinit, fun hb => ?_⟩
  rcases (BootLifecycle.confirmed_commissioned hcommission hinit).1 hb.metadata with
    ⟨r, ⟨k, hk⟩, -⟩ | ⟨-, hv⟩
  · cases (recordsErased_legacyImage.metadata .a).symm.trans hk
  · cases hformat.symm.trans hv
