import Mathlib.Data.Prod.Lex
import BootloaderV2.Coverage
import BootloaderV2.Mirrored

/-!
# Selection and jump

The gates of `BootJump_ToSlot` are checked when a boot selects its slot, and again when it jumps.
What was selected passes them, and the choice is the slot with the highest rank.
-/

open BootConfig NorFlash CrashM TwoCopy

/-! ## The gates on the image -/

namespace BootImage

variable {mem : Nat → Byte} {s : Slot}

/-- The vectors of an image that may be started, wherever its format puts its description. -/
structure VectorsSound (mem : Nat → Byte) (s : Slot) : Prop where
  stack : stackPointerValid (readWord mem s.base) = true
  reset_ne : readWord mem (s.base + 4) ≠ 0xFFFFFFFF
  thumb : readWord mem (s.base + 4) &&& 1 ≠ 0
  reset_ge : s.base ≤ (readWord mem (s.base + 4) &&& ~~~1).toNat
  reset_lt : (readWord mem (s.base + 4) &&& ~~~1).toNat < s.header

theorem PayloadValid.vectorsSound {h : BootImageHeader} (hv : HeaderValid s h)
    (hp : PayloadValid mem s h) : VectorsSound mem s := by
  have hle := hv.size_le
  have hhdr := s.header_eq
  have hlt := hp.reset_lt
  exact ⟨hp.stack, hp.reset_ne, hp.thumb, hp.reset_ge, by omega⟩

/-- An application of the old format may be started when it ends below the header of slot A. -/
theorem vectorsSound_of_application (h : bootIsApplicationValid mem = true)
    (hlt : ¬ slotAHeaderAddress ≤ (readWord mem (slotABaseAddress + 4) &&& ~~~1).toNat) :
    VectorsSound mem .a := by
  unfold bootIsApplicationValid at h
  dsimp only at h
  split at h
  · cases h
  split at h
  · cases h
  rename_i hfirst hsecond
  simp only [Bool.or_eq_true, not_or, beq_iff_eq, decide_eq_true_eq, Bool.not_eq_true',
    Bool.not_eq_false] at hfirst hsecond
  exact ⟨hfirst.2, hfirst.1.2, hsecond.1.1, not_lt.1 hsecond.1.2, not_le.1 hlt⟩

/-- An image that loads as valid has sound vectors, and may be started. -/
theorem bootable_of_valid (h : (loadInfo mem (some s)).valid = true) :
    isBootable mem (some s) = true ∧ VectorsSound mem s := by
  obtain ⟨d, hd, -⟩ := descriptor_eq s
  have hload := h
  unfold loadInfo at hload
  rw [hd] at hload
  dsimp only at hload
  split at hload
  · -- the old format
    rename_i hlegacy
    obtain rfl : s = .a := Option.some.inj hlegacy.1
    unfold loadLegacySlotA at hload
    dsimp only at hload
    split at hload
    · cases hload
    split at hload
    · cases hload
    split at hload
    · cases hload
    rename_i hsize hreset happ
    refine ⟨?_, vectorsSound_of_application (by simpa using happ) hreset⟩
    unfold isBootable loadInfo
    rw [hd]
    dsimp only
    rw [if_pos hlegacy]
    unfold loadLegacySlotA
    dsimp only
    rw [if_neg hsize, if_neg hreset, if_neg happ]
    rfl
  · rename_i hformat
    have hresult : (loadInfo mem (some s)).validationResult = .valid := by
      unfold loadInfo
      rw [hd]
      dsimp only
      rw [if_neg hformat]
      rw [validate_valid] at hload
      exact eq_of_beq hload
    obtain ⟨hv, hp⟩ := loadInfo_iff.1 hresult
    refine ⟨?_, hp.vectorsSound hv⟩
    unfold isBootable
    dsimp only
    rw [hresult]
    rfl

end BootImage

theorem BootJump.vectorsValid_of_sound {mem : Nat → Byte} {s : Slot}
    (h : BootImage.VectorsSound mem s) : vectorsValid mem s = true := by
  obtain ⟨d, hd, -, hvec, hend⟩ := BootImage.descriptor_eq s
  have hrange : BootSlot.containsRange (some s) s.base 8 = true := by cases s <;> decide
  have haligned : s.base % vectorAlignment = 0 := by cases s <;> decide
  have hhdr := s.header_eq
  have hne : readWord mem (s.base + 4) ≠ 0 := by
    intro h0
    have := h.thumb
    rw [h0] at this
    exact this (by decide)
  have hreset := h.reset_ne
  have hthumb := h.thumb
  have hge := h.reset_ge
  have hlt := h.reset_lt
  unfold vectorsValid
  rw [hd]
  dsimp only
  rw [hvec, hend, hrange, haligned, h.stack]
  simp only [Bool.and_eq_true, bne_iff_ne, decide_eq_true_eq]
  exact ⟨⟨⟨⟨⟨⟨⟨⟨rfl, trivial⟩, by omega⟩, trivial⟩, hne⟩, hreset⟩, hthumb⟩, hge⟩, hlt⟩

/-! ## The attempt -/

namespace BootMetadata

variable {b : Board} {s : Slot} {r : BootSlotMetadata}

theorem ensures_isSome {next : BootSlotMetadata} (hcur : Current s r b.mem) :
    Ensures (do return (← commit s next).isSome) (fun ok b' => Outside b b' ∧ (ok = true →
      Current s (completed s (r.sequence + 1) next) b'.mem)) b := by
  refine (ensures_commit hcur).bind ?_
  rintro res b₁ ⟨hout, -, hres⟩
  refine .pure ⟨hout, fun hok => ?_⟩
  obtain ⟨n, rfl⟩ := Option.isSome_iff_exists.1 hok
  obtain ⟨rfl, hn⟩ := hres n rfl
  exact hn

/-- `BootMetadata_SetState` to another state. -/
theorem ensures_setState {state : BootImageState} {reason result : Word} (hcur : Current s r b.mem)
    (hne : r.state ≠ state.code) :
    Ensures (setState s state reason result) (fun ok b' => Outside b b' ∧ (ok = true →
      Current s (completed s (r.sequence + 1) (stateRecord r state reason result)) b'.mem)) b := by
  obtain ⟨k, hk⟩ := hcur
  unfold setState
  rw [Ensures.bind_flash, hk]
  exact .ite (fun h => absurd h hne) fun _ => ensures_isSome ⟨k, hk⟩

theorem ensures_incrementAttempt {reason : Word} (hcur : Current s r b.mem) :
    Ensures (incrementAttempt s reason) (fun ok b' => Outside b b' ∧ (ok = true →
      r.state = BootImageState.trial.code ∧
      Current s (completed s (r.sequence + 1) (attemptRecord r reason)) b'.mem)) b := by
  obtain ⟨k, hk⟩ := hcur
  unfold incrementAttempt
  rw [Ensures.bind_flash, hk]
  refine .ite (fun _ => .pure ⟨.same, fun h => by cases h⟩) fun htrial => ?_
  refine (ensures_isSome ⟨k, hk⟩).mono fun ok b' h => ⟨h.1, fun hok => ⟨?_, h.2 hok⟩⟩
  rw [not_or, not_not] at htrial
  exact htrial.1

end BootMetadata

namespace BootLifecycle

variable {b : Board} {s : Slot} {r : BootSlotMetadata}

/-- What a slot is left with that has been prepared. -/
structure Ready (s : Slot) (b b' : Board) : Prop where
  update : b'.ram.update = b.ram.update
  fault : b'.ram.lifecycle.storageFault = b.ram.lifecycle.storageFault
  images : SameImages b b'
  mirror : Mirror b'
  status : b'.ram.lifecycle.metadataStatus s = .valid
  priority : BootPolicy.lifecyclePriority (b'.ram.lifecycle.metadata s).state ≠ 0

/-- The variables are read again from a record that makes the slot bootable. -/
theorem ready_finished {b₁ : Board} (hcur : BootMetadata.Current s r b₁.mem)
    (hp : BootPolicy.lifecyclePriority r.state ≠ 0) (hupdate : b₁.ram.update = b.ram.update)
    (hfault : b₁.ram.lifecycle.storageFault = b.ram.lifecycle.storageFault)
    (himages : SameImages b b₁) : Ready s b (finished b₁) := by
  obtain ⟨k, hk⟩ := hcur
  obtain ⟨hmeta, hstatus, hf, -⟩ := captured_eq (reloaded b₁.ram.lifecycle b₁.mem)
  refine ⟨hupdate, hf.trans hfault, himages, mirror_finished b₁, ?_, ?_⟩
  · show (captured _).metadataStatus s = _
    rw [hstatus]
    show BootMetadata.status (BootMetadata.load s b₁.mem) = _
    rw [hk]
    rfl
  · show BootPolicy.lifecyclePriority ((captured _).metadata s).state ≠ 0
    rw [hmeta, reloaded_metadata, hk]
    exact hp

/-- A slot that `BootLifecycle_PrepareBoot` has prepared is ready, whatever fails on the way. -/
theorem ensures_prepareBoot : Ensures (prepareBoot s) (fun ok b' => ok = true → Ready s b b') b := by
  have hfail : ∀ (c : Board), Ensures (do setStorageFault; return false : BootM Bool)
      (fun ok b' => ok = true → Ready s b b') c := fun c h => by cases h
  unfold prepareBoot
  rw [ensures_bind_reload, Ensures.bind_getRam]
  dsimp only
  obtain ⟨b₀, hb₀⟩ : ∃ b₀ : Board, b₀ = { b with ram := { b.ram with
      lifecycle := reloaded b.ram.lifecycle b.mem } } := ⟨_, rfl⟩
  have hload : LoadedSlot b₀ s := by
    rw [hb₀]
    exact loadedSlot_reloaded b b.ram _ s
  have hupdate : b₀.ram.update = b.ram.update := by rw [hb₀]
  have hfault : b₀.ram.lifecycle.storageFault = b.ram.lifecycle.storageFault := by
    rw [hb₀]
    rfl
  have himages : SameImages b b₀ := by
    rw [hb₀]
    rfl
  rw [← hb₀, show reloaded b.ram.lifecycle b.mem = b₀.ram.lifecycle by rw [hb₀]]
  refine .ite (fun _ => .pure fun h => by cases h) fun hvalid => ?_
  have hcur := hload (not_not.1 hvalid)
  generalize b₀.ram.lifecycle.metadata s = r at hcur
  refine .ite (fun hpending => ?_) fun _ => .ite (fun htrial => ?_) fun _ => .ite (fun _ => ?_)
    fun hconfirmed => ?_
  · -- the first attempt
    refine (BootMetadata.ensures_setState hcur (by rw [hpending]; decide)).bind ?_
    rintro ok b₁ ⟨hout, hnext⟩
    refine .ite (fun _ => hfail b₁) fun hok => fun _ => ?_
    have himages₁ := SameImages.of_outside hout
    obtain ⟨d, rfl, -⟩ := hout
    refine ready_finished (hnext (by simpa using hok)) ?_ hupdate hfault (himages₁.trans himages)
    show BootPolicy.lifecyclePriority BootImageState.trial.code ≠ 0
    decide
  · -- one attempt more
    refine (BootMetadata.ensures_incrementAttempt hcur).bind ?_
    rintro ok b₁ ⟨hout, hnext⟩
    refine .ite (fun _ => hfail b₁) fun hok => fun _ => ?_
    have himages₁ := SameImages.of_outside hout
    obtain ⟨d, rfl, -⟩ := hout
    refine ready_finished (hnext (by simpa using hok)).2 ?_ hupdate hfault
      (himages₁.trans himages)
    show BootPolicy.lifecyclePriority r.state ≠ 0
    rw [htrial]
    decide
  · exact .pure fun h => by cases h
  · refine fun _ => ready_finished hcur ?_ hupdate hfault himages
    rw [not_not.1 hconfirmed]
    decide

end BootLifecycle

/-! ## The variables after recovery -/

namespace BootLifecycle

variable {b b' : Board} {s : Slot}

theorem ensures_writeAppHandover (h : Mirror b) :
    Ensures (writeAppHandover s) (fun _ b' => ∃ r, b' = { b with retained := r }) b := by
  unfold writeAppHandover
  rw [ensures_bind_reload, h.reloaded, Ensures.bind_getRam]
  exact ⟨_, rfl⟩

/-- A slot whose variables say that it is bootable has such a record on flash. -/
theorem Mirror.trusted (h : Mirror b) (hs : isSlotBootable b.ram.lifecycle s = true) :
    ∃ k r, BootMetadata.load s b.mem = .valid k r ∧ b.ram.lifecycle.metadata s = r ∧
      BootPolicy.lifecyclePriority r.state ≠ 0 := by
  unfold isSlotBootable at hs
  simp only [Bool.and_eq_true, Bool.not_eq_true', beq_iff_eq, bne_iff_ne] at hs
  obtain ⟨r, hr⟩ := (h s).status_valid.1 hs.1.2
  have hmeta := (h s).record r hr
  obtain ⟨k, hk⟩ := BootMetadata.load_iff.2 hr
  rw [hmeta] at hs
  exact ⟨k, r, hk, hmeta, hs.2⟩

/-- However `BootLifecycle_Init` ends, its variables are those of the flash. -/
theorem ensures_init_mirror {reason : BootResetReason} :
    Ensures (init reason) (fun _ b' => Mirror b') b := by
  refine ensures_init_captured.mono ?_
  rintro - b' ⟨l, f, hl⟩
  have hm := mirror_reloaded b' l b'.ram
  refine hm.congr rfl ?_ ?_
  · rw [hl, (captured_eq _).1]
  · rw [hl, (captured_eq _).2.1]

end BootLifecycle

/-! ## The choice -/

namespace BootManager

variable {b : Board} {s t : Slot}

/-- What a slot must satisfy to be started. -/
structure Permitted (b : Board) (s : Slot) : Prop where
  journal : BootUpdate.isSlotBootable b.ram.update s = true
  metadata : BootLifecycle.isSlotBootable b.ram.lifecycle s = true
  image : (BootImage.loadInfo b.mem (some s)).valid = true

/-- The version of the image in a slot, as an unsigned number. -/
def versionIn (b : Board) (s : Slot) : Nat :=
  (BootImage.loadInfo b.mem (some s)).header.softwareVersion.toNat

/-- What the selection compares: the priority of the state first, then the version. -/
def rank (b : Board) (s : Slot) : Nat ×ₗ Nat :=
  toLex (BootPolicy.lifecyclePriority (b.ram.lifecycle.metadata s).state, versionIn b s)

/-- The permitted slot with the greatest rank; of two slots with the same rank it is slot A. -/
structure Chosen (b : Board) (s : Slot) : Prop where
  permitted : Permitted b s
  greatest : ∀ t, Permitted b t → rank b t ≤ rank b s
  tie : ∀ t, Permitted b t → rank b t = rank b s → t = s ∨ s = .a

theorem Chosen.unique (h : Chosen b s) (h' : Chosen b t) : s = t := by
  have hrank := le_antisymm (h'.greatest s h.permitted) (h.greatest t h'.permitted)
  rcases h.tie t h'.permitted hrank.symm with hst | hs
  · exact hst.symm
  rcases h'.tie s h.permitted hrank with hst | ht
  · exact hst
  · exact hs.trans ht.symm

theorem Permitted.scanned (h : Permitted b s) :
    scanned b.ram b.mem s = BootImage.loadInfo b.mem (some s) := by
  unfold BootManager.scanned
  rw [if_pos (by rw [h.journal, h.metadata]; rfl)]

theorem Permitted.fault (h : Permitted b s) : b.ram.lifecycle.storageFault = false := by
  have hm := h.metadata
  unfold BootLifecycle.isSlotBootable at hm
  simp only [Bool.and_eq_true, Bool.not_eq_true'] at hm
  exact hm.1.1

/-- The weight of a permitted slot is the priority of its state. -/
theorem Permitted.priority (h : Permitted b s) :
    priority b s = BootPolicy.lifecyclePriority (b.ram.lifecycle.metadata s).state ∧
      0 < priority b s := by
  have hm := h.metadata
  unfold BootLifecycle.isSlotBootable at hm
  simp only [Bool.and_eq_true, beq_iff_eq, bne_iff_ne] at hm
  have heq : BootManager.priority b s =
      BootPolicy.lifecyclePriority (b.ram.lifecycle.metadata s).state := by
    unfold BootManager.priority stateOf
    rw [h.scanned, if_pos h.image, if_pos hm.1.2]
  exact ⟨heq, by rw [heq]; exact Nat.pos_of_ne_zero hm.2⟩

theorem permitted_of_priority (h : 0 < priority b s) : Permitted b s := by
  obtain ⟨hj, hm, -, hv⟩ := scanned_of_priority h
  exact ⟨hj, hm, hv⟩

/-- Between slots of the same weight the version decides, and slot A if it is the same too. -/
theorem version_of_target (h : slotOfTarget (target b) = some s)
    (heq : priority b s.other = priority b s) :
    (scanned b.ram b.mem s.other).header.softwareVersion.toNat <
        (scanned b.ram b.mem s).header.softwareVersion.toNat ∨
      (scanned b.ram b.mem s.other).header.softwareVersion.toNat =
        (scanned b.ram b.mem s).header.softwareVersion.toNat ∧ s = .a := by
  obtain ⟨hf, hpos, -⟩ := of_target h
  have hab : priority b .a = priority b .b ∧ 0 < priority b .b := by
    cases s with
    | a => exact ⟨heq.symm, by rw [show priority b .b = _ from heq]; exact hpos⟩
    | b => exact ⟨heq, hpos⟩
  have htarget : target b =
      if BootVersion.compare (scanned b.ram b.mem .a).header.softwareVersion
        (scanned b.ram b.mem .b).header.softwareVersion = .less then .slotB else .slotA := by
    show (if b.ram.lifecycle.storageFault = true then _
      else if priority b .a ≠ 0 ∧ priority b .b = 0 then _
      else if priority b .a = 0 ∧ priority b .b ≠ 0 then _
      else if priority b .a = 0 ∧ priority b .b = 0 then _
      else if priority b .b < priority b .a then _
      else if priority b .a < priority b .b then _ else _ : BootTarget) = _
    rw [if_neg (by simp [hf]), if_neg (by omega), if_neg (by omega), if_neg (by omega),
      if_neg (by omega), if_neg (by omega)]
  have hslot : slotOfTarget (target b) = some (if
      (scanned b.ram b.mem .a).header.softwareVersion.toNat <
        (scanned b.ram b.mem .b).header.softwareVersion.toNat then .b else .a) := by
    rw [htarget, BootVersion.compare_eq]
    simp only [BitVec.lt_def]
    split_ifs <;> first | rfl | contradiction
  rw [hslot] at h
  split at h
  · rename_i hlt
    obtain rfl := Option.some.inj h
    exact .inl hlt
  · rename_i hle
    obtain rfl := Option.some.inj h
    rcases Nat.lt_or_eq_of_le (Nat.le_of_not_lt hle) with hlt | hv
    · exact .inl hlt
    · exact .inr ⟨hv, rfl⟩

/-- `BootManager_SelectBootTarget` makes the choice. -/
theorem target_iff : slotOfTarget (target b) = some s ↔ Chosen b s := by
  have hchosen : ∀ s, slotOfTarget (target b) = some s → Chosen b s := by
    intro s h
    obtain ⟨-, hpos, hle⟩ := of_target h
    have hs := permitted_of_priority hpos
    -- the rank of the other slot, when it is permitted
    have hother : Permitted b s.other → rank b s.other < rank b s ∨
        rank b s.other = rank b s ∧ s = .a := by
      intro ho
      have hps := hs.priority.1
      have hpo := ho.priority.1
      rcases Nat.lt_or_eq_of_le hle with hlt | heq
      · left
        refine Prod.Lex.toLex_lt_toLex.2 (.inl ?_)
        rw [← hps, ← hpo]
        exact hlt
      · have hfst : BootPolicy.lifecyclePriority (b.ram.lifecycle.metadata s.other).state =
            BootPolicy.lifecyclePriority (b.ram.lifecycle.metadata s).state := by
          rw [← hps, ← hpo]
          exact heq
        have hv := version_of_target h heq
        rw [hs.scanned, ho.scanned] at hv
        rcases hv with hlt | ⟨hv, hsa⟩
        · exact .inl (Prod.Lex.toLex_lt_toLex.2 (.inr ⟨hfst, hlt⟩))
        · exact .inr ⟨congrArg toLex (Prod.ext hfst hv), hsa⟩
    refine ⟨hs, fun t ht => ?_, fun t ht heq => ?_⟩
    · by_cases hst : t = s
      · rw [hst]
      rw [Slot.eq_other_of_ne hst] at ht ⊢
      rcases hother ht with hlt | ⟨heq, -⟩
      · exact hlt.le
      · exact heq.le
    · by_cases hst : t = s
      · exact .inl hst
      rw [Slot.eq_other_of_ne hst] at ht heq
      rcases hother ht with hlt | ⟨-, hsa⟩
      · exact absurd heq hlt.ne
      · exact .inr hsa
  refine ⟨hchosen s, fun h => ?_⟩
  -- some slot is selected, and there is only one that can be
  obtain ⟨t, ht, -⟩ := exists_target h.permitted.fault h.permitted.priority.2
  have hslot : slotOfTarget (target b) = some t := by rw [ht, slotOfTarget_targetOf]
  rw [h.unique (hchosen t hslot), hslot]

/-! ## The jump -/

/-- A permitted slot that has been prepared passes the gates of `BootJump_ToSlot`. -/
theorem toSlot_of_prepared {b' : Board} (h : Permitted b s)
    (hready : BootLifecycle.Ready s b b') : BootJump.toSlot s b' = .done true b' := by
  have hupdate : BootUpdate.isSlotBootable b'.ram.update s = true := by
    rw [hready.update]
    exact h.journal
  have hlifecycle : BootLifecycle.isSlotBootable b'.ram.lifecycle s = true := by
    unfold BootLifecycle.isSlotBootable
    rw [hready.fault, h.fault, hready.status]
    simpa using hready.priority
  have himage : (BootImage.loadInfo b'.mem (some s)).valid = true := by
    rw [hready.images.loadInfo]
    exact h.image
  obtain ⟨hboot, hvectors⟩ := BootImage.bootable_of_valid himage
  show Outcome.done (BootUpdate.isSlotBootable b'.ram.update s &&
    BootLifecycle.isSlotBootable b'.ram.lifecycle s && BootImage.isBootable b'.mem (some s) &&
    BootJump.vectorsValid b'.mem s) b' = _
  rw [hupdate, hlifecycle, hboot, BootJump.vectorsValid_of_sound hvectors]
  rfl

theorem Permitted.congr {b' : Board} (h : Permitted b s) (ha : b.Alike b') : Permitted b' s := by
  refine ⟨?_, ?_, ?_⟩
  · rw [ha.update]
    exact h.journal
  · have hm := h.metadata
    unfold BootLifecycle.isSlotBootable at hm ⊢
    rw [ha.fault, ha.status, ha.metadata]
    exact hm
  · rw [ha.mem]
    exact h.image

/-- State JUMP_APP ends in the error state only where the slot could not be prepared. -/
theorem ensures_jumpApp (h : Permitted b s) : Ensures (jumpApp s) (fun exit _ => exit = .error →
    ∃ b', BootLifecycle.prepareBoot s b = .done false b') b := by
  unfold jumpApp
  rw [Ensures.bind_get]
  refine .ite (fun _ => .skip fun _ _ => .pure fun h => by cases h) fun _ => ?_
  refine (Ensures.self.and BootLifecycle.ensures_prepareBoot).bind ?_
  rintro ok b₁ ⟨hrun, hready⟩
  refine .ite (fun hno => .pure fun _ => ⟨b₁, ?_⟩) fun hok => ?_
  · rw [hrun]
    simpa using hno
  have hr := hready (by simpa using hok)
  refine (BootLifecycle.ensures_writeAppHandover hr.mirror).bind ?_
  rintro - b₂ ⟨w, rfl⟩
  -- the handover leaves the variables as they were prepared
  have hjump : BootJump.toSlot s { b₁ with retained := w } = .done true _ := toSlot_of_prepared h
    ⟨hr.update, hr.fault, hr.images, hr.mirror.congr rfl rfl rfl, hr.status, hr.priority⟩
  refine Ensures.self.bind ?_
  intro jumped b₃ hrun₃
  rw [hjump] at hrun₃
  cases hrun₃
  exact .ite (fun _ => .pure fun h => by cases h) fun hn => absurd rfl hn

/-- Upkeep of the lifecycle does not find or lose a journal. -/
def KeepsValid {α : Type} (m : BootM α) : Prop :=
  ∀ b, Ensures m (fun _ b' => b'.ram.update.journalValid = b.ram.update.journalValid) b

theorem keepsValid_closed : Closed @KeepsValid where
  pure _ _ := .pure rfl
  bind hm hf b := (hm b).bind fun a b' h => (hf a b').mono fun _ _ h' => h'.trans h
  get _ := rfl
  setLifecycle _ _ := rfl
  setManager _ _ := rfl
  setRetained _ _ := rfl
  metadata hm b := by
    refine (Ensures.of_issues (hm b)).mono ?_
    rintro - - ⟨d, rfl, -⟩
    rfl
  handoff b := by
    unfold BootUpdate.completeActivationHandoff
    rw [Ensures.bind_getRam]
    refine .ite (fun _ => .pure rfl) fun _ => ?_
    unfold BootUpdate.save
    rw [Ensures.bind_getRam]
    refine .ite (fun _ => .pure rfl) fun _ => ?_
    refine (Ensures.of_issues BootJournal.issues_commit).bind ?_
    rintro res b' ⟨d, rfl, -⟩
    cases res with
    | none => rfl
    | some next => rfl

theorem Permitted.journalValid (h : Permitted b s) : b.ram.update.journalValid = true := by
  have hj := h.journal
  unfold BootUpdate.isSlotBootable at hj
  split at hj
  · cases hj
  · rename_i hn
    rw [Bool.or_eq_true, not_or] at hn
    simpa using hn.1

/-- Where recovery leaves a journal in RAM, it mirrors the flash. -/
theorem mirrored_of_recovery {b₀ b₁ b₂ : Board} {reason : BootResetReason} {ok₁ ok₂ : Bool}
    (hready : b₀.ram.flash.ready = true) (hload : BootUpdate.loadRecoveryState b₀ = .done ok₁ b₁)
    (hinit : BootLifecycle.init reason b₁ = .done ok₂ b₂)
    (hvalid : b₂.ram.update.journalValid = true) : Mirrored b₂ := by
  have hcalls : Ensures (BootLifecycle.init reason) _ b₁ :=
    BootLifecycle.stored_init keepsValid_closed.stored b₁
  have hkeeps := hcalls.of_done hinit
  rw [hvalid] at hkeeps
  cases hl : BootJournal.loadLatest b₀.mem with
  | valid k j =>
    have hb : Mirrored (BootUpdate.recovering b₀ j) := ⟨hready, rfl, ⟨j, k, hl⟩, fun _ => ⟨k, hl⟩⟩
    have hacts := (wp_of_eq_done (BootUpdate.wp_loadRecoveryState hl hb) hload).1
    have hb₁ := Acts.mirrored hacts hb
    exact Acts.mirrored (wp_of_eq_done (BootLifecycle.stored_init minds_closed.stored b₁ hb₁) hinit).1 hb₁
  | empty | invalid =>
    -- recovery stops without a journal
    have hnone : Ensures BootUpdate.loadRecoveryState
        (fun _ b' => b'.ram.update.journalValid = false) b₀ := by
      unfold BootUpdate.loadRecoveryState
      rw [Ensures.bind_flash, hl]
      rfl
    rw [hnone.of_done hload] at hkeeps
    cases hkeeps

/-- What a slot must be for the boot to select it: the journal lets it start, its metadata is
    trusted and in one of three states, and its image is valid. -/
structure Startable (b : Board) (s : Slot) : Prop where
  journal : BootUpdate.isSlotBootable b.ram.update s = true
  metadata : ∃ k r, BootMetadata.load s b.mem = .valid k r ∧
    (r.state = BootImageState.pending.code ∨ r.state = BootImageState.trial.code ∨
      r.state = BootImageState.confirmed.code)
  image : (BootImage.loadInfo b.mem (some s)).valid = true

theorem state_of_priority {w : Word} (h : BootPolicy.lifecyclePriority w ≠ 0) :
    w = BootImageState.pending.code ∨ w = BootImageState.trial.code ∨
      w = BootImageState.confirmed.code := by
  unfold BootPolicy.lifecyclePriority at h
  split_ifs at h with ht hp hc
  · exact .inr (.inl ht)
  · exact .inl hp
  · exact .inr (.inr hc)
  · exact absurd rfl h

theorem Permitted.startable (h : Permitted b s) (hl : BootLifecycle.Mirror b) :
    Startable b s := by
  obtain ⟨k, r, hload, -, hp⟩ := hl.trusted h.metadata
  exact ⟨h.journal, ⟨k, r, hload, state_of_priority hp⟩, h.image⟩

/-- After recovery the boot selects the permitted slot with the greatest rank.  What it selects can
    be started, and once it is prepared the jump is made.  The journal that permits it is the one on
    flash. -/
theorem selection_sound {b₀ b₁ b₂ b₃ : Board} {reason : BootResetReason} {ok₁ ok₂ : Bool}
    {tgt : BootTarget} (hload : BootUpdate.loadRecoveryState b₀ = .done ok₁ b₁)
    (hinit : BootLifecycle.init reason b₁ = .done ok₂ b₂)
    (hselect : selectBootTarget b₂ = .done tgt b₃) :
    (∀ s, slotOfTarget tgt = some s ↔ Chosen b₂ s) ∧
    ∀ s, slotOfTarget tgt = some s → Startable b₂ s ∧
      (b₀.ram.flash.ready = true → b₂.ram.update.storageFault = false →
        BootJournal.Current b₂.mem b₂.ram.update.current) ∧
      (∀ b₄, BootLifecycle.prepareBoot s b₃ = .done true b₄ →
        BootJump.toSlot s b₄ = .done true b₄) ∧
      ∀ b₄, jumpApp s b₃ = .done .error b₄ →
        ∃ b₅, BootLifecycle.prepareBoot s b₃ = .done false b₅ := by
  have hl : BootLifecycle.Mirror b₂ := BootLifecycle.ensures_init_mirror.of_done hinit
  obtain ⟨-, rfl, halike, -, -⟩ :=
    wp_of_eq_done (runs_selectBootTarget (R := fun _ _ => True)) hselect
  refine ⟨fun s => target_iff, fun s hs => ?_⟩
  have hpermitted := (target_iff.1 hs).permitted
  have hpermitted₃ := hpermitted.congr halike
  refine ⟨hpermitted.startable hl, fun hready hfault => ?_, fun b₄ hprep => ?_, fun b₄ hjump => ?_⟩
  · exact (mirrored_of_recovery hready hload hinit hpermitted.journalValid).current hfault
  · exact toSlot_of_prepared hpermitted₃ (BootLifecycle.ensures_prepareBoot.of_done hprep rfl)
  · exact (ensures_jumpApp hpermitted₃).of_done hjump rfl

/-- A journal that has just been commissioned is read again as it is. -/
theorem loadRecoveryState_commissioned (hu : b.ram.update = BootLifecycle.commissionedUpdate s)
    (hcur : BootJournal.Current b.mem b.ram.update.current) :
    BootUpdate.loadRecoveryState b = .done true b := by
  obtain ⟨k, hk⟩ := hcur
  have hrecovering : BootUpdate.recovering b b.ram.update.current = b := by
    have hstate : b.ram.update = ⟨b.ram.update.current, true, false, false⟩ := by
      rw [hu]
      rfl
    unfold BootUpdate.recovering
    rw [← hstate]
  have hload : BootUpdate.loadRecoveryState b =
      BootUpdate.recoverLoaded (BootUpdate.recovering b b.ram.update.current) := by
    unfold BootUpdate.loadRecoveryState
    simp only [Bind.bind, BootM.flash, hk]
    rfl
  have hvalid : b.ram.update.journalValid = true := by rw [hu]; rfl
  have hstate : b.ram.update.current.state = BootUpdateState.aborted.code := by rw [hu]; rfl
  rw [hload, hrecovering]
  unfold BootUpdate.recoverLoaded
  simp only [Bind.bind, BootM.getRam]
  rw [hvalid, hstate]
  rfl

/-- A slot that is commissioned on erased records is selected by the next boot. -/
theorem selectBootTarget_commissioned (reason : BootResetReason)
    (hready : b.ram.flash.ready = true) (hd : b.dev.Healthy) (herased : RecordsErased b.mem)
    (himage : (BootImage.loadInfo b.mem (some s)).valid = true)
    (hformat : (BootImage.loadInfo b.mem (some s)).legacyFormat = false) :
    ∃ b₁ b₂ b₃, BootUpdate.loadRecoveryState b₁ = .done true b₁ ∧
      BootLifecycle.init reason b₁ = .done true b₂ ∧
      selectBootTarget b₂ = .done (BootLifecycle.targetOf s) b₃ := by
  have hallowed : BootUpdate.commissionAllowed b.mem (some s) = true := himage
  obtain ⟨ok, b₁, hb₁, rfl, hd₁, hstep, -, hboard⟩ :=
    (BootUpdate.completes_initializeJournal hready hd herased.journal hallowed).exists_done
  obtain ⟨hu, -, -, hmeta⟩ := BootUpdate.ensures_initializeJournal.of_done hb₁ rfl
  have hready₁ : b₁.ram.flash.ready = true := by
    rw [hboard]
    exact hready
  obtain ⟨b₂, hb₂⟩ := BootLifecycle.init_erased_done reason hu hready₁ hd₁.1 hd₁.2
    fun x => by
      rw [hmeta x]
      exact herased.metadata x
  have hbootable := (BootLifecycle.commission_bootable_iff hb₁ hb₂).2
    (.inr ⟨herased.metadata s, hformat⟩)
  obtain ⟨b₃, hb₃⟩ := hbootable.target
  exact ⟨b₁, b₂, b₃, loadRecoveryState_commissioned hu hstep.current, hb₂, hb₃⟩

/-- The boot after the commissioning of slot A selects it, and it can be started. -/
theorem selection_sound_commissioned : ∃ b₁ b₂ b₃,
    BootUpdate.loadRecoveryState b₁ = .done true b₁ ∧
    BootLifecycle.init .software b₁ = .done true b₂ ∧
    selectBootTarget b₂ = .done .slotA b₃ ∧ Chosen b₂ .a ∧ Startable b₂ .a := by
  obtain ⟨himage, hformat⟩ := loadInfo_packedImage
  obtain ⟨b₁, b₂, b₃, hload, hinit, hselect⟩ := selectBootTarget_commissioned
    (b := boardOf packedImage) (s := .a) .software rfl
    ⟨fun _ h => (by cases h), fun _ h => (by cases h)⟩ recordsErased_packedImage himage hformat
  obtain ⟨hchosen, hstart⟩ := selection_sound hload hinit hselect
  exact ⟨b₁, b₂, b₃, hload, hinit, hselect, (hchosen .a).1 rfl, (hstart .a rfl).1⟩

end BootManager
