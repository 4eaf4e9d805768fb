import BootloaderV2.History

/-!
# An update leaves the active slot alone

Whatever is asked of the server, and wherever it and the boots after it are interrupted, a confirmed
active slot keeps its image and its record.  The first boot that is not interrupted selects a slot,
and what it selects is valid.
-/

open BootConfig NorFlash CrashM TwoCopy

/-! ## Steps that spare a slot -/

/-- The journal of a state that is not one of rest. -/
theorem Resting.excluded {j : BootUpdateJournal} {p : BootUpdateState} (hst : j.state = p.code)
    (hp : p ≠ .idle ∧ p ≠ .aborted) : ¬ Resting j := by
  unfold Resting
  rw [hst]
  rintro (he | he)
  · exact hp.1 (BootUpdateState.code_injective he)
  · exact hp.2 (BootUpdateState.code_injective he)

theorem Revalidating.not_resting {j : BootUpdateJournal} (h : Revalidating j.state) :
    ¬ Resting j := by
  rcases h with hs | hs | hs
  · exact Resting.excluded hs (by decide)
  · exact Resting.excluded hs (by decide)
  · exact Resting.excluded hs (by decide)

/-- What is at rest recovery does not commit again. -/
theorem RecoveryCommit.not_resting {d : Durable} {j next : BootUpdateJournal}
    (h : RecoveryCommit d j next) : ¬ Resting j := by
  cases h with
  | interrupt hs =>
    rintro (he | he)
    · rw [he] at hs
      exact absurd hs (by decide)
    · rw [he] at hs
      exact absurd hs (by decide)
  | verifying hs => exact Resting.excluded hs (by decide)
  | reject hs _ => exact hs.not_resting
  | verified hs _ _ => exact Resting.excluded hs (by decide)
  | pending hs _ _ => exact Resting.excluded hs (by decide)
  | handOff t r hdel _ _ => exact Resting.excluded hdel.state (by decide)

/-- Slot `s` is confirmed and its image valid, and a transaction under way is not about it. -/
structure Guarded (s : Slot) (d : Durable) : Prop where
  consistent : Consistent d
  journal : ∃ j, d.journal = .record j ∧ (Resting j ∨ j.target = some s.other)
  confirmed : ∃ r, d.metadata s = .record r ∧ r.state = BootImageState.confirmed.code
  image : BootLifecycle.imageValid d.image s = true

/-- A server that takes `s` for the active slot starts transactions about the other one, and goes on
    with transactions that are not at rest. -/
theorem ServerCommit.target {d : Durable} {s : Slot} {j next : BootUpdateJournal}
    (h : ServerCommit (some s) d j next) :
    next.target = some s.other ∨ ¬ Resting j ∧ next.target = j.target := by
  cases h with
  | begin t _ _ ht _ _ =>
    left
    show SlotId.ofCode (SlotId.code (some t)) = _
    rw [SlotId.ofCode_code, Slot.eq_other_of_ne fun hts => ht (congrArg some hts.symm)]
  | advance p q hst hadv =>
    refine .inr ⟨Resting.excluded hst ?_, rfl⟩
    revert hadv
    unfold ServerAdvance
    cases p <;> cases q <;> decide
  | progress size sequence hst => exact .inr ⟨Resting.excluded hst (by decide), rfl⟩
  | complete header sequence hst => exact .inr ⟨Resting.excluded hst (by decide), rfl⟩
  | verified hst _ => exact .inr ⟨Resting.excluded hst (by decide), rfl⟩
  | pending hst => exact .inr ⟨Resting.excluded hst (by decide), rfl⟩
  | abort p reason hst hun => exact .inr ⟨Resting.excluded hst ⟨hun.1, hun.2.2⟩, rfl⟩

/-- The slot has the same bytes. -/
def SameSlot (s : Slot) (d d' : Durable) : Prop := ∀ a, s.Contains a → d'.image a = d.image a

namespace Guarded

variable {s x t : Slot} {d d' : Durable} {j next : BootUpdateJournal} {r : BootSlotMetadata}
  {img : Nat → Byte}

theorem setJournal (h : Guarded s d) (hc : Consistent (d.setJournal next))
    (hnext : Resting next ∨ next.target = some s.other) :
    Guarded s (d.setJournal next) ∧ SameSlot s d (d.setJournal next) :=
  ⟨⟨hc, ⟨next, rfl, hnext⟩, h.confirmed, h.image⟩, fun _ _ => rfl⟩

theorem setMetadata (h : Guarded s d) (hc : Consistent (d.setMetadata x r)) (hx : x ≠ s) :
    Guarded s (d.setMetadata x r) ∧ SameSlot s d (d.setMetadata x r) := by
  obtain ⟨c, hr, hst⟩ := h.confirmed
  refine ⟨⟨hc, h.journal, ⟨c, ?_, hst⟩, h.image⟩, fun _ _ => rfl⟩
  rw [Durable.setMetadata_of_ne hx.symm, hr]

theorem setImage (h : Guarded s d) (hc : Consistent (d.setImage img))
    (hout : SameOutside s.other.base slotSize d.image img) :
    Guarded s (d.setImage img) ∧ SameSlot s d (d.setImage img) := by
  have hinfo := BootImage.loadInfo_other hout
  have hsame := Slot.same_other hout
  rw [Slot.other_other] at hinfo hsame
  refine ⟨⟨hc, h.journal, h.confirmed, ?_⟩, fun a ha => (hsame a ha).symm⟩
  have himage := h.image
  unfold BootLifecycle.imageValid at himage ⊢
  rwa [hinfo] at himage

/-- A transaction that is not at rest is about the other slot. -/
theorem target (h : Guarded s d) (hj : d.journal = .record j) (hst : ¬ Resting j) :
    j.target = some s.other := by
  obtain ⟨j', hj', hcase⟩ := h.journal
  obtain rfl := Register.Current.record.inj (hj.symm.trans hj')
  exact hcase.resolve_left hst

/-- A slot without a record is the other one. -/
theorem ne_of_unset (h : Guarded s d) (hu : d.metadata x = .unset) : x ≠ s := by
  rintro rfl
  obtain ⟨r, hr, -⟩ := h.confirmed
  exact absurd (hu.symm.trans hr) (by simp)

/-- A transaction that can be handed over is about the other slot. -/
theorem ne_of_deliverable (h : Guarded s d) (hd : Deliverable d j x) : x ≠ s := by
  have htarget := h.target hd.journal (Resting.excluded hd.state (by decide))
  rintro rfl
  exact absurd (hd.target.symm.trans htarget) (by simp)

/-- Recovery leaves the slot alone. -/
theorem recovers (h : Guarded s d) (hv : d.Valid) (hd : Recovers d d') :
    Guarded s d' ∧ SameSlot s d d' := by
  have hc := h.consistent.recovers hv hd
  cases hd with
  | commit j next hj hcommit =>
    have htarget := h.target hj hcommit.not_resting
    refine h.setJournal hc (.inr ?_)
    cases hcommit <;> exact htarget
  | write x r next hr hw =>
    refine h.setMetadata hc ?_
    cases hw with
    | install j reason hdel _ _ => exact h.ne_of_deliverable hdel
    | promote j reason hdel _ => exact h.ne_of_deliverable hdel
    | exhausted j reason _ _ htrial _ =>
      rintro rfl
      obtain ⟨c, hc, hst⟩ := h.confirmed
      obtain rfl := Register.Current.record.inj (hr.symm.trans hc)
      rw [hst] at htrial
      exact absurd htrial (by decide)
  | first x next hu hf => exact h.setMetadata hc (h.ne_of_unset hu)
  | publish j t img hj hs _ ht hout _ =>
    obtain rfl := Option.some.inj (ht.symm.trans (h.target hj hs.not_resting))
    exact h.setImage hc (Slot.outside_of_header hout)

/-- A server that takes the slot for the active one leaves it alone. -/
theorem serves (h : Guarded s d) (hv : d.Valid) (hd : Serves (some s) d d') :
    Guarded s d' ∧ SameSlot s d d' := by
  have hc := h.consistent.serves hv hd
  cases hd with
  | commit j next hj hcommit =>
    refine h.setJournal hc (.inr ?_)
    rcases hcommit.target with ht | ⟨hrest, ht⟩
    · exact ht
    · exact ht.trans (h.target hj hrest)
  | write j t img hj hst _ ht hout =>
    have hrest : ¬ Resting j := by
      rcases hst with hs | hs | hs
      · exact Resting.excluded hs (by decide)
      · exact Resting.excluded hs (by decide)
      · exact Resting.excluded hs (by decide)
    obtain rfl := Option.some.inj (ht.symm.trans (h.target hj hrest))
    exact h.setImage hc hout
  | commission active hj _ =>
    obtain ⟨j, hj', -⟩ := h.journal
    exact absurd (hj.symm.trans hj') (by simp)
  | recover d' hr => exact h.recovers hv hr

/-- Steps that leave the slot alone one by one leave it alone. -/
theorem trail {S : Durable → Durable → Prop} {e e' : Device Note}
    (h : Guarded s (View.of e.mem).durable)
    (hS : ∀ d d', Guarded s d → d.Valid → S d d' → Guarded s d' ∧ SameSlot s d d')
    (ht : Trail (Lift S) e e') : Guarded s (View.of e'.mem).durable ∧
      SameSlot s (View.of e.mem).durable (View.of e'.mem).durable := by
  refine ht.durable (P := fun d => Guarded s d ∧ SameSlot s (View.of e.mem).durable d)
    (fun d d' hv hs hd => ?_) ⟨h, fun _ _ => rfl⟩
  obtain ⟨hg, hsame⟩ := hS d d' hd.1 hv hs
  exact ⟨hg, fun a ha => (hsame a ha).trans (hd.2 a ha)⟩

/-- The bytes of the slot as the flash has them. -/
theorem mem_eq {e e' : Device Note} (h : SameSlot s (View.of e.mem).durable (View.of e'.mem).durable)
    {a : Nat} (ha : s.Contains a) : e'.mem a = e.mem a := by
  have himage : BootFlash.image e'.mem a = BootFlash.image e.mem a := h a ha
  rwa [BootFlash.image_of_slot _ ha, BootFlash.image_of_slot _ ha] at himage

end Guarded

/-! ## What a boot selects -/

namespace Recovered

variable {b : Board} {j : BootUpdateJournal} {s x t : Slot} {r : BootSlotMetadata}

/-- Where a slot has metadata the boot has a journal at rest and no fault. -/
theorem exists_resting (h : Recovered b) (hr : b.view.Metadata s r) :
    b.ram.lifecycle.storageFault = false ∧ ∃ j, BootUpdate.Mirror b j ∧ Resting j := by
  have hfault : b.ram.lifecycle.storageFault = false := by
    by_contra hf
    exact h.faulted (by simpa using hf) s r hr
  refine ⟨hfault, h.update.resolve_left fun hn => ?_⟩
  exact absurd (hfault.symm.trans hn.2) (by decide)

/-- A confirmed slot with a valid image weighs something, unless an aborted transaction is about
    it. -/
theorem priority_pos (h : Recovered b) (hm : BootUpdate.Mirror b j)
    (hf : b.ram.lifecycle.storageFault = false) (hj : j.state = BootUpdateState.idle.code ∨
      j.active = some s) (hr : b.view.Metadata s r) (hst : r.state = BootImageState.confirmed.code)
    (himage : BootLifecycle.imageValid b.durable.image s = true) :
    0 < BootManager.priority b s := by
  have hscan := h.scanned_active hm hf hr hst hj
  rw [← BootLifecycle.imageValid_view] at himage
  have hvalid : (BootImage.loadInfo b.mem (some s)).valid = true := by
    unfold BootLifecycle.imageValid at himage
    rw [Bool.and_eq_true] at himage
    exact himage.2
  unfold BootManager.priority BootManager.stateOf
  rw [hscan, if_pos hvalid, if_pos ((h.lifecycle s).status_valid.2 ⟨r, hr⟩),
    (h.lifecycle s).record r hr, hst]
  decide

/-- What weighs something holds the image that its record names. -/
theorem good_of_priority (h : Recovered b) (hc : Consistent b.durable)
    (hp : 0 < BootManager.priority b x) : ∃ r, b.durable.metadata x = .record r ∧
      b.durable.Good x r := by
  obtain ⟨hboot, hlife, -, -⟩ := BootManager.scanned_of_priority hp
  have hstatus : b.ram.lifecycle.metadataStatus x = .valid := by
    unfold BootLifecycle.isSlotBootable at hlife
    simp only [Bool.and_eq_true, beq_iff_eq] at hlife
    exact hlife.1.2
  obtain ⟨r, hr⟩ := (h.lifecycle x).status_valid.1 hstatus
  have hrec := View.metadata_iff.2 hr
  obtain ⟨-, j, hm, hst⟩ := h.exists_resting hr
  obtain ⟨t, ht⟩ := hm.wellFormed.exists_target
  have hconfirmed : b.durable.Confirmed x → ∃ r, b.durable.metadata x = .record r ∧
      b.durable.Good x r := fun ⟨c, hcr, _, hg⟩ => ⟨c, hcr, hg⟩
  rcases hst with hidle | habort
  · have hi := hc.idle j t hm.durable ht hidle
    by_cases hxt : x = t
    · obtain ⟨c, hcr, -, hg, -⟩ := hi.installed
      exact ⟨c, hxt ▸ hcr, hxt ▸ hg⟩
    · have hx := Slot.eq_other_of_ne hxt
      cases ha : j.active with
      | none => exact absurd ((hx ▸ hi.unknown ha).symm.trans hrec) (by simp)
      | some y =>
        obtain rfl : y = x := (hm.wellFormed.active_ne_target ha ht).trans hx.symm
        exact hconfirmed (hi.active y ha)
  · -- only the active slot of an aborted transaction is bootable
    have ha := bootable_aborted hm habort hboot
    have hb := hc.busy j t hm.durable ht (by rw [habort]; decide)
    rcases hb.active x ha with hx | ⟨-, -, hx, -⟩
    · exact hconfirmed hx
    · exact absurd (hx.symm.trans hrec) (by simp)

/-- Where a slot is confirmed and valid, some slot weighs something. -/
theorem exists_priority (h : Recovered b) (hg : Guarded s b.durable) :
    b.ram.lifecycle.storageFault = false ∧ ∃ x, 0 < BootManager.priority b x := by
  obtain ⟨r, hr, hst⟩ := hg.confirmed
  have hr' := View.metadata_iff.1 hr
  obtain ⟨hfault, j, hm, hrest⟩ := h.exists_resting hr'
  refine ⟨hfault, ?_⟩
  rcases hrest with hidle | habort
  · exact ⟨s, h.priority_pos hm hfault (.inl hidle) hr' hst hg.image⟩
  obtain ⟨t, ht⟩ := hm.wellFormed.exists_target
  have hb := hg.consistent.busy j t hm.durable ht (by rw [habort]; decide)
  have hset : ∀ x, b.durable.metadata x = .unset → x ≠ s := fun _ => hg.ne_of_unset
  have hslot : s = t ∨ s = t.other := by
    by_cases hst : s = t
    · exact .inl hst
    · exact .inr (Slot.eq_other_of_ne hst)
  cases ha : j.active with
  | some y =>
    obtain rfl := hm.wellFormed.active_ne_target ha ht
    rcases hb.active _ ha with ⟨c, hc, hcs, hgood⟩ | ⟨-, -, hy, hu⟩
    · exact ⟨_, h.priority_pos hm hfault (.inr ha) (View.metadata_iff.1 hc) hcs hgood.1⟩
    · exact absurd hslot (not_or.2 ⟨(hset t hu).symm, (hset t.other hy).symm⟩)
  | none =>
    obtain ⟨ho, hu | ⟨hp, -⟩⟩ := hb.unknown ha
    · exact absurd hslot (not_or.2 ⟨(hset t hu).symm, (hset t.other ho).symm⟩)
    · exact absurd (habort.symm.trans hp) (by decide)

end Recovered

/-! ## The whole run -/

/-- What may follow while the server on `b` updates a slot: its turns, a reset at any command, and
    boots that are interrupted while they recover. -/
inductive Proceeds (b : Board) : Phase → Prop where
  | start : Proceeds b (.serving b)
  | serve {b₁ b₂ : Board} (a : Activity) (e : Turn) (he : e.Sound) (h : Proceeds b (.serving b₁))
    (ha : a ≠ .boot) (hb : a.run (e.on b₁) = .done true b₂) : Proceeds b (.serving b₂)
  | interrupt {b₁ : Board} (a : Activity) (e : Turn) (he : e.Sound) (h : Proceeds b (.serving b₁))
    (ha : a ≠ .boot) : Proceeds b (.reset (a.run (e.on b₁)).state.dev)
  | recover {d : Device Note} (e : Turn) (he : e.Sound) (w : RetainedRecord)
    (h : Proceeds b (.reset d)) : Proceeds b (.reset (BootManager.init (e.restart w d)).state.dev)

def Phase.dev : Phase → Device Note
  | .reset d => d
  | .serving b => b.dev

/-- What every phase keeps: slot `s` is guarded and has its bytes, and a server takes it for the
    active slot. -/
structure Phase.Guards (s : Slot) (b : Board) (p : Phase) : Prop where
  guarded : Guarded s (View.of p.dev.mem).durable
  same : SameSlot s b.durable (View.of p.dev.mem).durable
  session : ∀ b', p = .serving b' → Session (some s) b'

/-- A server that takes a confirmed slot with a valid image for the active one guards it. -/
theorem Session.guarded {b : Board} {s : Slot} {j : BootUpdateJournal} {r : BootSlotMetadata}
    (h : Session (some s) b) (hc : Consistent b.durable) (hj : b.view.Journal j)
    (hr : b.view.Metadata s r) (hst : r.state = BootImageState.confirmed.code)
    (hi : BootLifecycle.imageValid b.durable.image s = true) : Guarded s b.durable := by
  refine ⟨hc, ⟨j, View.journal_iff.2 hj, ?_⟩, ⟨r, View.metadata_iff.2 hr, hst⟩, hi⟩
  by_cases hrest : Resting j
  · exact .inl hrest
  right
  have hfault : b.ram.lifecycle.storageFault = false := by
    by_contra hf
    exact h.faulted (by simpa using hf) s r hr
  have hwf := (View.durable_valid b.dev.mem).journal j (View.journal_iff.2 hj)
  obtain ⟨t, ht⟩ := hwf.exists_target
  have hactive := h.linked j hj (fun hidle => hrest (.inl hidle)) (.inl hfault)
  rw [hwf.active_ne_target hactive ht, Slot.other_other]
  exact ht

namespace Phase.Guards

variable {s : Slot} {b : Board} {p : Phase}

/-- Steps that leave the slot alone keep what is known. -/
theorem step {S : Durable → Durable → Prop} {q : Phase} {d : Device Note} (h : p.Guards s b)
    (hS : ∀ d d', Guarded s d → d.Valid → S d d' → Guarded s d' ∧ SameSlot s d d')
    (hmem : d.mem = p.dev.mem) (ht : Trail (Lift S) d q.dev)
    (hs : ∀ b', q = .serving b' → Session (some s) b') : q.Guards s b := by
  obtain ⟨hg, hsame⟩ := Guarded.trail (hmem ▸ h.guarded) hS ht
  rw [hmem] at hsame
  exact ⟨hg, fun a ha => (hsame a ha).trans (h.same a ha), hs⟩

theorem of_proceeds (h₀ : (Phase.serving b).Guards s b) (h : Proceeds b p) : p.Guards s b := by
  induction h with
  | start => exact h₀
  | @serve b₁ b₂ a e he _ ha hb ih =>
    have hruns := Activity.runs_serve ha ((ih.session b₁ rfl).on e) (he.on b₁) ih.guarded.consistent
    obtain ⟨htrail, hgo⟩ := hruns.of_done hb
    refine ih.step (d := (e.on b₁).dev) (q := .serving b₂) (fun _ _ hg hv hd => hg.serves hv hd)
      rfl htrail ?_
    rintro _ ⟨⟩
    refine hgo.resolve_right fun hn => ?_
    obtain ⟨j, hj, -⟩ := ih.guarded.journal
    exact hn.1 j (View.journal_iff.1 hj)
  | @interrupt b₁ a e he _ ha ih =>
    have hruns := Activity.runs_serve ha ((ih.session b₁ rfl).on e) (he.on b₁) ih.guarded.consistent
    exact ih.step (d := (e.on b₁).dev) (q := .reset _) (fun _ _ hg hv hd => hg.serves hv hd) rfl
      hruns.state_trail fun _ h => by cases h
  | @recover d e he w _ ih =>
    have hruns := BootManager.lifts_init (he.restart w d) ih.guarded.consistent.unhindered
    exact ih.step (d := (e.restart w d).dev) (q := .reset _)
      (fun _ _ hg hv hd => hg.recovers hv hd) rfl hruns.state_trail fun _ h => by cases h

end Phase.Guards

/-- What an uninterrupted boot finds: it selects a slot, and its image is the one that its record
    names. -/
def Selects (s : Slot) (e : Turn) (w : RetainedRecord) (d : Device Note) : Prop :=
  ∃ b₁ x b₂, BootManager.init (e.restart w d) = .done () b₁ ∧
    BootManager.selectBootTarget b₁ = .done (BootLifecycle.targetOf x) b₂ ∧
    (x ≠ s → (BootImage.loadInfo b₁.mem (some x)).validationResult = .valid ∧
      ∃ k r, BootMetadata.load x b₁.mem = .valid k r ∧
        r.imageVersion = (BootImage.loadInfo b₁.mem (some x)).header.softwareVersion)

/-- The first boot that is not interrupted. -/
theorem Guarded.selects {s : Slot} {d : Device Note} (h : Guarded s (View.of d.mem).durable)
    {e : Turn} (he : e.Calm) (w : RetainedRecord) : Selects s e w d := by
  have hruns := BootManager.lifts_init (he.sound.restart w d) h.consistent.unhindered
  obtain ⟨_, b₁, hb₁, htrail, hbooted⟩ := hruns.exists_done he.uncut
  have hg : Guarded s b₁.durable := (Guarded.trail (e := (e.restart w d).dev) h
    (fun _ _ hg hv hd => hg.recovers hv hd) htrail).1
  have hrec := hbooted.recovered hg.consistent
  obtain ⟨hfault, y, hy⟩ := hrec.exists_priority hg
  obtain ⟨x, hx, -⟩ := BootManager.exists_target hfault hy
  obtain ⟨_, b₂, hb₂, -, rfl, -⟩ := (BootManager.runs_selectBootTarget (b := b₁)
    (R := fun _ _ => True)).exists_done (htrail.uncut he.uncut)
  refine ⟨b₁, x, b₂, hb₁, hx ▸ hb₂, fun _ => ?_⟩
  have hpos : 0 < BootManager.priority b₁ x := by
    refine (BootManager.of_target (s := x) ?_).2.1
    rw [hx, BootManager.slotOfTarget_targetOf]
  obtain ⟨r, hr, himage, hversion⟩ := hrec.good_of_priority hg.consistent hpos
  obtain ⟨k, hk⟩ := BootMetadata.load_iff.2 (View.metadata_iff.1 hr)
  refine ⟨?_, k, r, hk, ?_⟩
  · rw [← BootLifecycle.imageValid_view] at himage
    exact BootLifecycle.imageValid_iff.1 himage
  · rw [← hversion, BootLifecycle.version_view]

/-- A confirmed active slot with a valid image survives an update of the other slot: whatever is
    asked of the server, and wherever it and the boots after it are interrupted, its bytes and its
    confirmation stay, and the first boot that is not interrupted has a slot to start. -/
theorem Proceeds.crash_safe {b : Board} {s : Slot} {p : Phase} (h : Endures (.serving b))
    (hs : b.ram.programming.activeSlot = some s)
    (hj : ∃ k j, BootJournal.loadLatest b.mem = .valid k j)
    (hr : ∃ k r, BootMetadata.load s b.mem = .valid k r ∧ r.state = BootImageState.confirmed.code)
    (hi : (BootImage.loadInfo b.mem (some s)).validationResult = .valid) (hp : Proceeds b p) :
    ((∀ a, s.Contains a → p.dev.mem a = b.mem a) ∧ ∃ k r,
      BootMetadata.load s p.dev.mem = .valid k r ∧ r.state = BootImageState.confirmed.code) ∧
    ∀ d, p = .reset d → ∀ (e : Turn) (w : RetainedRecord), e.Calm → Selects s e w d := by
  obtain ⟨⟨act, hsession⟩, hc⟩ := h.sound
  obtain rfl : act = some s := hsession.active.symm.trans hs
  obtain ⟨k, j, hj⟩ := hj
  obtain ⟨k', r, hr, hst⟩ := hr
  have himage : BootLifecycle.imageValid b.durable.image s = true := by
    rw [← BootLifecycle.imageValid_view]
    exact BootLifecycle.imageValid_iff.2 hi
  have hguarded := hsession.guarded hc (BootJournal.loadLatest_iff.1 ⟨k, hj⟩)
    (BootMetadata.load_iff.1 ⟨k', hr⟩) hst himage
  have hkeeps : p.Guards s b := by
    refine .of_proceeds ⟨hguarded, fun _ _ => rfl, ?_⟩ hp
    rintro _ ⟨⟩
    exact hsession
  refine ⟨⟨fun a ha => Guarded.mem_eq (e := b.dev) hkeeps.same ha, ?_⟩, ?_⟩
  · obtain ⟨c, hc, hcs⟩ := hkeeps.guarded.confirmed
    obtain ⟨i, hi⟩ := BootMetadata.load_iff.2 (View.metadata_iff.1 hc)
    exact ⟨i, c, hi, hcs⟩
  · rintro d rfl e w he
    exact hkeeps.guarded.selects he w

theorem Activity.request_ne_boot (q : List Byte) : Activity.request q ≠ .boot := fun h => by cases h

/-- A request that is answered has been served. -/
theorem Activity.request_done {q : List Byte} {r : Option (List Byte)} {b b' : Board}
    (h : BootUds.processRequest q b = .done r b') : (Activity.request q).run b = .done true b' := by
  show (BootUds.processRequest q >>= fun _ => pure true) b = _
  simp only [bind, h]
  rfl

theorem Activity.tick_done {b b' : Board} (h : BootUds.mainFunction b = .done () b') :
    Activity.tick.run b = .done true b' := by
  show (BootUds.mainFunction >>= fun _ => pure true) b = _
  simp only [bind, h]
  rfl

/-- An unlocked server on erased records. -/
theorem exists_unlocked : ∃ b : Board, Endures (.serving b) ∧ b.mem = packedImage ∧
    b.ram.uds.session = 2 ∧ b.ram.security.unlocked = true := by
  have he := Turn.calm_quiet.sound
  obtain ⟨b₀, b₁, b₂, b₃, h₀, h₁, h₂, h₃, hl₀, hl₁, hl₂, hl₃, hsession, hunlocked⟩ : ∃ b₀ b₁ b₂ b₃ : Board,
      Activity.boot.run (Turn.quiet.restart ⟨0, 0, 0, 0⟩ ⟨packedImage, [], []⟩) = .done true b₀ ∧
      (Activity.request [0x10, 2]).run (Turn.quiet.on b₀) = .done true b₁ ∧
      (Activity.request [0x27, 1]).run (Turn.quiet.on b₁) = .done true b₂ ∧
      (Activity.request ([0x27, 2] ++ BootUds.write32
        (BootSecurity.expectedKey b₂.ram.security.seed))).run (Turn.quiet.on b₂) = .done true b₃ ∧
      b₀.dev.log.length = 0 ∧ b₁.dev.log.length = 0 ∧ b₂.dev.log.length = 0 ∧
      b₃.dev.log.length = 0 ∧ b₃.ram.uds.session = 2 ∧ b₃.ram.security.unlocked = true :=
    ⟨_, _, _, _, Outcome.eq_done_of_waits (by decide +kernel),
      Outcome.eq_done_of_waits (by decide +kernel), Outcome.eq_done_of_waits (by decide +kernel),
      Outcome.eq_done_of_waits (by decide +kernel), by decide +kernel, by decide +kernel,
      by decide +kernel, by decide +kernel, by decide +kernel, by decide +kernel⟩
  have hE₀ : Endures (.serving b₀) := .boot _ he _ (.new recordsErased_packedImage) h₀
  have hE₁ : Endures (.serving b₁) := .serve _ _ he hE₀ (Activity.request_ne_boot _) h₁
  have hE₂ : Endures (.serving b₂) := .serve _ _ he hE₁ (Activity.request_ne_boot _) h₂
  have hE₃ : Endures (.serving b₃) := .serve _ _ he hE₂ (Activity.request_ne_boot _) h₃
  have hquiet : ∀ {a : Activity} {b b' : Board}, a ≠ .boot → Endures (.serving b) →
      a.run (Turn.quiet.on b) = .done true b' → b'.dev.log.length = b.dev.log.length →
      b'.mem = b.mem := by
    intro a b b' ha hb hrun hlog
    obtain ⟨⟨act, hsession⟩, hc⟩ := hb.sound
    have htrail := ((Activity.runs_serve ha (hsession.on _) (he.on b) hc).of_done hrun).1
    exact htrail.mem_of_log (d := (Turn.quiet.on b).dev) hlog
  have hboot := (Activity.runs_boot (he.restart ⟨0, 0, 0, 0⟩ ⟨packedImage, [], []⟩)
    recordsErased_packedImage.consistent).of_done h₀
  have hm₀ : b₀.mem = packedImage := hboot.1.mem_of_log hl₀
  have hm₁ : b₁.mem = packedImage := (hquiet (Activity.request_ne_boot _) hE₀ h₁ (by omega)).trans hm₀
  have hm₂ : b₂.mem = packedImage := (hquiet (Activity.request_ne_boot _) hE₁ h₂ (by omega)).trans hm₁
  have hm₃ : b₃.mem = packedImage := (hquiet (Activity.request_ne_boot _) hE₂ h₃ (by omega)).trans hm₂
  exact ⟨b₃, hE₃, hm₃, hsession, hunlocked⟩

/-- Slot A is commissioned on an unlocked server that holds its image and nothing else. -/
theorem exists_adopted : ∃ (b : Board) (r : Option (List Byte)) (b' : Board),
    Endures (.serving b) ∧ b.ram.uds.session = 2 ∧ b.ram.security.unlocked = true ∧
    BootUds.processRequest [0x31, 1, 0xFF, 2, 0] (Turn.quiet.on b) = .done r b' ∧
    Endures (.serving b') ∧ BootUds.Adopted .a packedImage b' := by
  obtain ⟨b, hb, hmem, hsession, hunlocked⟩ := exists_unlocked
  obtain ⟨⟨act, hact⟩, hc⟩ := hb.sound
  have he := Turn.calm_quiet
  obtain ⟨hvalid, hformat⟩ := loadInfo_packedImage
  have hruns := BootUds.session_processRequest (q := [0x31, 1, 0xFF, 2, 0]) (hact.on Turn.quiet)
    (he.sound.on b) hc
  obtain ⟨r, b', hb', -, -⟩ := hruns.exists_done he.uncut
  -- the commissioning finds erased records and a valid image
  have hensures : Ensures (BootUds.processRequest [0x31, 1, 0xFF, 2, 0])
      (fun _ => BootUds.Adopted .a packedImage) (Turn.quiet.on b) := by
    refine BootUds.ensures_commission_request rfl rfl rfl rfl rfl ?_
    intro b₁ hdev hhw hflash huds hsecurity
    have hm : b₁.mem = packedImage := by
      rw [Board.mem, hdev]
      exact hmem
    rw [← hm] at hvalid hformat ⊢
    refine BootUds.ensures_commissioned (s := .a) ?_ ?_ ?_ hvalid hformat rfl rfl ?_ ?_ ?_
    · rw [hflash]
      exact hact.ready
    · rw [hdev]
      exact ⟨he.sound, he.uncut⟩
    · rw [hm]
      exact recordsErased_packedImage
    · rw [huds]
      exact hsession
    · rw [hsecurity]
      exact hunlocked
    · rw [hhw]
      rfl
  exact ⟨b, r, b', hb, hsession, hunlocked, hb', .serve _ _ he.sound hb
    (Activity.request_ne_boot _) (Activity.request_done hb'), hensures.of_done hb'⟩

/-- A server that has commissioned slot A. -/
theorem exists_commissioned_server : ∃ b : Board, Endures (.serving b) ∧
    b.ram.programming.activeSlot = some .a ∧ (∃ k j, BootJournal.loadLatest b.mem = .valid k j) ∧
    (∃ k r, BootMetadata.load .a b.mem = .valid k r ∧
      r.state = BootImageState.confirmed.code) ∧
    (BootImage.loadInfo b.mem (some .a)).validationResult = .valid := by
  obtain ⟨-, -, b, -, -, -, -, hE, hadopted⟩ := exists_adopted
  obtain ⟨c, hc, hst⟩ := hadopted.record
  have hc' : b.view.Metadata .a c := BootMetadata.load_iff.1 hc
  obtain ⟨k, hk⟩ := hc
  refine ⟨b, hE, hadopted.active, ?_, ⟨k, c, hk, hst⟩, ?_⟩
  · have hcons : Consistent b.durable := hE.sound.2
    cases hj : b.durable.journal with
    | unset =>
      have hm := View.metadata_iff.2 hc'
      exact absurd (hm.symm.trans (hcons.unset hj .a)) (by simp)
    | record j =>
      obtain ⟨k, hk⟩ := BootJournal.loadLatest_iff.2 (View.journal_iff.1 hj)
      exact ⟨k, j, hk⟩
    | ambiguous => exact absurd hj hcons.journal
  · rw [hadopted.info]
    decide +kernel

/-- A request to erase slot B is cut in the ninth byte of a command, and the next boot starts a
    slot. -/
theorem Proceeds.crash_safe_commissioned : ∃ b q d,
    d = ((Activity.request q).run (Turn.on ⟨[.cut 9], .powerOn⟩ b)).state.dev ∧
    (∀ a, Slot.a.Contains a → d.mem a = b.mem a) ∧ Selects .a Turn.quiet ⟨0, 0, 0, 0⟩ d := by
  have hcut : Turn.Sound ⟨[.cut 9], .powerOn⟩ := fun _ h => by
    rcases List.mem_cons.1 h with h | h
    · cases h
    · cases h
  obtain ⟨b, hb, hactive, hj, hr, hi⟩ := exists_commissioned_server
  have hsafe (q : List Byte) : ∃ d,
      d = ((Activity.request q).run (Turn.on ⟨[.cut 9], .powerOn⟩ b)).state.dev ∧
      (∀ a, Slot.a.Contains a → d.mem a = b.mem a) ∧ Selects .a Turn.quiet ⟨0, 0, 0, 0⟩ d := by
    have hd := Proceeds.interrupt (.request q) _ hcut (.start (b := b)) (Activity.request_ne_boot q)
    have h := Proceeds.crash_safe hb hactive hj hr hi hd
    exact ⟨_, rfl, h.1.1, h.2 _ rfl _ _ Turn.calm_quiet⟩
  exact ⟨b, [0x31, 1, 0xFF, 0] ++ BootUds.write32 (BitVec.ofNat 32 slotBBaseAddress) ++
    BootUds.write32 (BitVec.ofNat 32 slotSize), hsafe _⟩
