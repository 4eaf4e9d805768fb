import BootloaderV2.Launch
import BootloaderV2.UpdateRun

/-!
# An acknowledged update is delivered

Routine FF01 answers positively when the transaction is PENDING_ACTIVATION.  The boots after it hand
the image over, wherever they are interrupted, and the first boot that jumps starts the trial of the
image that was sent.
-/

open BootConfig NorFlash CrashM TwoCopy

/-- One step of recovery after the verification of a transaction: before its handover, and after. -/
inductive Settles (d : Durable) (j : BootUpdateJournal) (t : Slot) : Durable → Prop where
  | handOff (r : BootSlotMetadata) (hst : j.state = BootUpdateState.pendingActivation.code)
    (hr : d.metadata t = .record r) (hfor : d.IsFor j t .pending r) :
    Settles d j t (d.setJournal (BootJournal.completed (j.sequence + 1)
      { j with state := BootUpdateState.idle.code }))
  | record (s : Slot) (next : BootSlotMetadata)
    (hst : j.state = BootUpdateState.pendingActivation.code) : Settles d j t (d.setMetadata s next)
  | fail (s : Slot) (r next : BootSlotMetadata) (hr : d.metadata s = .record r)
    (htrial : r.state = BootImageState.trial.code) (hattempts : maxTrialAttempts ≤ r.bootAttempts)
    (hnext : next.state = BootImageState.invalid.code) : Settles d j t (d.setMetadata s next)
  | publish (img : Nat → Byte) (hst : j.state = BootUpdateState.pendingActivation.code)
    (hout : SameOutside t.header flashSectorSize d.image img)
    (hstage : (¬ d.Publishes j ∧ HeaderAt t j.cachedHeader 0 img) ∨
      ∃ p q, p ≤ q ∧ q ≤ BootImageHeader.size ∧ HeaderAt t j.cachedHeader p d.image ∧
        HeaderAt t j.cachedHeader q img) : Settles d j t (d.setImage img)

/-- Recovery does not reject what has been verified. -/
theorem Recovers.settles {d d' : Durable} {j : BootUpdateJournal} {t : Slot} (hd : Recovers d d')
    (hc : Consistent d) (hj : d.journal = .record j) (ht : j.target = some t)
    (hst : j.state = BootUpdateState.pendingActivation.code ∨
      j.state = BootUpdateState.idle.code) : Settles d j t d' := by
  have hjournal : ∀ {i}, d.journal = .record i → i = j := fun hi =>
    Register.Current.record.inj (hi.symm.trans hj)
  -- the journal is in none of the other states
  have hno : ∀ p : BootUpdateState, p ≠ .pendingActivation → p ≠ .idle → j.state ≠ p.code := by
    intro p hp hp' hs
    rcases hst with hst | hst
    · exact hp (BootUpdateState.code_injective (hs.symm.trans hst))
    · exact hp' (BootUpdateState.code_injective (hs.symm.trans hst))
  have hpending : Revalidating j.state → j.state = BootUpdateState.pendingActivation.code := by
    rintro (hs | hs | hs)
    · exact absurd hs (hno .verifying (by decide) (by decide))
    · exact absurd hs (hno .verified (by decide) (by decide))
    · exact hs
  have hdeliverable : ∀ {i x}, Deliverable d i x →
      j.state = BootUpdateState.pendingActivation.code := fun hdel => by
    rw [← hjournal hdel.journal]
    exact hdel.state
  cases hd with
  | commit i next hi hcommit =>
    obtain rfl := hjournal hi
    cases hcommit with
    | interrupt haction =>
      rcases hst with hs | hs
      · rw [hs] at haction
        exact absurd haction (by decide)
      · rw [hs] at haction
        exact absurd haction (by decide)
    | verifying hs => exact absurd hs (hno .transferComplete (by decide) (by decide))
    | verified hs => exact absurd hs (hno .verifying (by decide) (by decide))
    | pending hs => exact absurd hs (hno .verified (by decide) (by decide))
    | reject hs ha =>
      have hst := hpending hs
      have hb := hc.busy i t hi ht (by rw [hst]; decide)
      exact absurd (hb.accepts (.inr hst)) ha
    | handOff s r hdel hr hfor =>
      obtain rfl := Option.some.inj (ht.symm.trans hdel.target)
      exact .handOff r hdel.state hr hfor
  | write s r next hr hw =>
    cases hw with
    | install _ _ hdel _ _ => exact .record s _ (hdeliverable hdel)
    | promote _ _ hdel _ => exact .record s _ (hdeliverable hdel)
    | exhausted _ _ _ _ htrial hattempts => exact .fail s r _ hr htrial hattempts rfl
  | first s next hu hfirst =>
    cases hfirst with
    | install _ _ hdel => exact .record s _ (hdeliverable hdel)
    | commission i _ hi hcase _ _ =>
      rw [hjournal hi] at hcase
      rcases hcase with hcase | hcase
      · exact .record s _ hcase.1
      · exact absurd hcase.1 (hno .aborted (by decide) (by decide))
  | publish i x img hi hs _ hx hout hstage =>
    obtain rfl := hjournal hi
    obtain rfl := Option.some.inj (ht.symm.trans hx)
    exact .publish img (hpending hs) hout hstage

/-- The slot has the first record of transaction `n`, which waits for its trial. -/
def Durable.HandedOver (d : Durable) (t : Slot) (n : Word) : Prop :=
  ∃ r, d.metadata t = .record r ∧ r.state = BootImageState.pending.code ∧ r.updateCounter = n

/-- The transaction of `j` has been verified when the slots held `image`: it waits for its handover,
    or for its trial. -/
structure Acknowledged (j : BootUpdateJournal) (t : Slot) (image : Nat → Byte) (d : Durable) :
    Prop where
  consistent : Consistent d
  target : j.target = some t
  header : HeaderAt t j.cachedHeader BootImageHeader.size image
  journal : ∃ i, d.journal = .record i ∧ i.activeSlot = j.activeSlot ∧
    i.targetSlot = j.targetSlot ∧ i.transactionId = j.transactionId ∧
    i.cachedHeader = j.cachedHeader ∧
    (i.state = BootUpdateState.pendingActivation.code ∨
      i.state = BootUpdateState.idle.code ∧ d.HandedOver t j.transactionId)
  image : ∀ a, t.Contains a → d.image a = image a

/-- What has been published is programmed again with the same bytes at most. -/
theorem HeaderAt.again {t : Slot} {h : BootImageHeader} {p q : Nat} {img img' : Nat → Byte}
    (hh : HeaderAt t h BootImageHeader.size img) (hpq : p ≤ q) (hq : q ≤ BootImageHeader.size)
    (hp : HeaderAt t h p img) (hq' : HeaderAt t h q img') (i : Nat) (hi : i < flashSectorSize) :
    img' (t.header + i) = img (t.header + i) := by
  rw [hq' i hi]
  by_cases hlow : i < p
  · rw [hp i hi, if_pos hlow, if_pos (by omega)]
  · by_cases hmid : i < q
    · rw [hh i hi, if_pos hmid, if_pos (by omega)]
    · rw [hp i hi, if_neg hlow, if_neg hmid]

namespace Acknowledged

variable {j : BootUpdateJournal} {t : Slot} {image : Nat → Byte} {d d' : Durable}

/-- A transaction that has just been verified. -/
theorem of_pending (hc : Consistent d) (hj : d.journal = .record j) (ht : j.target = some t)
    (hst : j.state = BootUpdateState.pendingActivation.code)
    (hh : HeaderAt t j.cachedHeader BootImageHeader.size d.image) : Acknowledged j t d.image d :=
  ⟨hc, ht, hh, ⟨j, hj, rfl, rfl, rfl, rfl, .inl hst⟩, fun _ _ => rfl⟩

theorem headerAt (h : Acknowledged j t image d) :
    HeaderAt t j.cachedHeader BootImageHeader.size d.image := by
  intro i hi
  have hhdr := t.header_eq
  have hoff : BootProgramming.headerOffset = 225280 := rfl
  have hss : slotSize = 229376 := rfl
  have hfs : flashSectorSize = 4096 := rfl
  have hin : t.Contains (t.header + i) := ⟨by omega, by omega⟩
  rw [h.image _ hin]
  exact h.header i hi

/-- A verified transaction is not rejected: recovery hands it over and leaves its image and its
    record alone. -/
theorem recovers (h : Acknowledged j t image d) (hv : d.Valid) (hd : Recovers d d') :
    Acknowledged j t image d' := by
  obtain ⟨i, hi, hactive, htarget, hid, hheader, hstate⟩ := h.journal
  have hit : i.target = some t := by
    rw [BootUpdateJournal.target, htarget]
    exact h.target
  have hc' := h.consistent.recovers hv hd
  have hidle : i.state = BootUpdateState.pendingActivation.code →
      i.state = BootUpdateState.idle.code → False := fun hp hs =>
    absurd (hp.symm.trans hs) (by decide)
  cases hd.settles h.consistent hi hit (hstate.imp_right And.left) with
  | handOff r hst hr hfor =>
    refine ⟨hc', h.target, h.header, ?_, h.image⟩
    refine ⟨_, rfl, hactive, htarget, hid, hheader, .inr ⟨rfl, r, hr, hfor.1, ?_⟩⟩
    exact hfor.2.2.trans hid
  | record s next hst =>
    refine ⟨hc', h.target, h.header, ⟨i, hi, hactive, htarget, hid, hheader, ?_⟩, h.image⟩
    exact hstate.imp_right fun hs => (hidle hst hs.1).elim
  | fail s r next hr htrial hattempts hnext =>
    refine ⟨hc', h.target, h.header, ⟨i, hi, hactive, htarget, hid, hheader, ?_⟩, h.image⟩
    refine hstate.imp_right fun hs => ?_
    obtain ⟨hs, c, hc, hcs, hcu⟩ := hs
    refine ⟨hs, c, ?_, hcs, hcu⟩
    -- a record that waits for its trial is not on trial
    rw [Durable.setMetadata_of_ne, hc]
    rintro rfl
    obtain rfl := Register.Current.record.inj (hc.symm.trans hr)
    exact absurd (hcs.symm.trans htrial) (by decide)
  | publish img hst hout hstage =>
    refine ⟨hc', h.target, h.header, ⟨i, hi, hactive, htarget, hid, hheader, hstate⟩, ?_⟩
    have hhdr := h.headerAt
    rw [← hheader] at hhdr
    have hpublishes : d.Publishes i := by
      have ha := (h.consistent.busy i t hi hit (by rw [hst]; decide)).accepts (.inr hst)
      unfold Durable.Accepts at ha
      unfold Durable.Publishes
      rw [hit] at ha ⊢
      exact BootImageInstall.published_of_headerAt ha hhdr
    obtain ⟨p, q, hpq, hq, hp, hq'⟩ := hstage.resolve_left fun hn => hn.1 hpublishes
    intro a ha
    rw [← h.image a ha]
    show img a = d.image a
    by_cases hsector : t.header ≤ a ∧ a < t.header + flashSectorSize
    · obtain ⟨k, rfl⟩ : ∃ k, a = t.header + k := ⟨a - t.header, by omega⟩
      exact hhdr.again hpq hq hp hq' k (by omega)
    · exact hout a (by omega)

theorem trail {e e' : Device Note} (h : Acknowledged j t image (View.of e.mem).durable)
    (ht : Trail (Lift Recovers) e e') : Acknowledged j t image (View.of e'.mem).durable :=
  ht.durable (fun _ _ hv hs h => h.recovers hv hs) h

end Acknowledged

/-! ## What the next boot selects -/

/-- The other slot of a finished transaction has no record, or is confirmed. -/
theorem Durable.Idle.other {d : Durable} {j : BootUpdateJournal} {t : Slot} (h : d.Idle j t)
    (hwf : BootJournal.WellFormed j) (ht : j.target = some t) :
    d.metadata t.other = .unset ∨ d.Confirmed t.other := by
  cases ha : j.active with
  | none => exact .inl (h.unknown ha)
  | some x =>
    obtain rfl := hwf.active_ne_target ha ht
    exact .inr (h.active _ ha)

namespace Recovered

variable {b : Board} {j : BootUpdateJournal} {s t : Slot} {r : BootSlotMetadata}

/-- Between transactions a valid slot weighs what its record says. -/
theorem priority_eq (h : Recovered b) (hm : BootUpdate.Mirror b j)
    (hidle : j.state = BootUpdateState.idle.code) (hr : b.durable.metadata s = .record r)
    (hpri : BootPolicy.lifecyclePriority r.state ≠ 0)
    (hvalid : BootLifecycle.imageValid b.durable.image s = true) :
    BootManager.priority b s = BootPolicy.lifecyclePriority r.state := by
  have hfault := (h.exists_resting (View.metadata_iff.1 hr)).1
  have hstate := BootManager.stateOf_record h.lifecycle hr
  have hboot : BootUpdate.isSlotBootable b.ram.update s = true := by
    rw [slotBootable hm (.inl hidle), hidle]
    rfl
  have hlife : BootLifecycle.isSlotBootable b.ram.lifecycle s = true := by
    rw [lifecycleBootable, hfault, hstate]
    simpa using hpri
  have hloads : (BootImage.loadInfo b.mem (some s)).valid = true := by
    rw [← BootLifecycle.imageValid_view] at hvalid
    exact (BootImage.loadInfo_of_valid (BootLifecycle.imageValid_iff.1 hvalid)).1
  unfold BootManager.priority BootManager.scanned
  rw [hboot, hlife, if_pos (show (true && true) = true from rfl), if_pos hloads, hstate]

/-- An image that waits for its trial goes before a confirmed one. -/
theorem target_pending (h : Recovered b) (hc : Consistent b.durable)
    (hj : b.durable.journal = .record j) (hidle : j.state = BootUpdateState.idle.code)
    (ht : j.target = some t) (hr : b.durable.metadata t = .record r)
    (hst : r.state = BootImageState.pending.code) :
    BootManager.target b = BootLifecycle.targetOf t := by
  obtain ⟨hfault, i, hm, _⟩ := h.exists_resting (View.metadata_iff.1 hr)
  obtain rfl : i = j := Register.Current.record.inj (hm.durable.symm.trans hj)
  have hi := hc.idle i t hj ht hidle
  obtain ⟨c, hcr, _, hgood, _⟩ := hi.installed
  have htwo : BootManager.priority b t = 2 := by
    rw [h.priority_eq hm hidle hr (by rw [hst]; decide) hgood.1, hst]
    decide
  have hone : BootManager.priority b t.other ≤ 1 := by
    rcases hi.other hm.wellFormed ht with hu | ⟨o, ho, hos, hgo⟩
    · unfold BootManager.priority
      rw [BootManager.stateOf_unset h.lifecycle hu]
      split
      · decide
      · decide
    · rw [h.priority_eq hm hidle ho (by rw [hos]; decide) hgo.1, hos]
      decide
  exact BootManager.target_of_lt hfault (by omega)

end Recovered

/-- What has become of an acknowledged update at the end of a boot: it has been handed over and
    waits for its trial, or this boot has started it. -/
structure Delivered (t : Slot) (j : BootUpdateJournal) (image : Nat → Byte) (request sw : Bool)
    (exit : BootExit) (d : Durable) : Prop where
  exits : exit = BootManager.exitFor request sw (some t)
  journal : ∃ i, d.journal = .record i ∧ i.state = BootUpdateState.idle.code ∧
    i.target = some t ∧ i.transactionId = j.transactionId
  image : ∀ a, t.Contains a → d.image a = image a
  record : ∃ r, d.metadata t = .record r ∧ r.updateCounter = j.transactionId ∧
    (exit = .jumped t → r.state = BootImageState.trial.code ∧ r.bootAttempts = 1) ∧
    (exit ≠ .jumped t → r.state = BootImageState.pending.code)

namespace Acknowledged

variable {j : BootUpdateJournal} {t : Slot} {image : Nat → Byte} {d : Device Note}

/-- The end of a boot that has recovered an acknowledged update. -/
theorem ended {b₁ b' : Board} {exit : BootExit} (h : Acknowledged j t image b₁.durable)
    (hrec : Recovered b₁) (hrest : Rested b₁.view) (hended : BootManager.Ended b₁ b' exit) :
    Delivered t j image (BootManager.softwareRequested b₁ || b₁.hw.requestPin) b₁.hw.srs.sw exit
      b'.durable ∧ ((∀ s, exit ≠ .jumped s) → Acknowledged j t image b'.durable) := by
  obtain ⟨i, hi, _, htarget, hid, _, hstate⟩ := h.journal
  have hit : i.target = some t := by
    rw [BootUpdateJournal.target, htarget]
    exact h.target
  -- a journal at rest is not one that waits for the handover
  obtain ⟨hidle, r, hr, hrs, hru⟩ := hstate.resolve_left fun hs => by
    rcases hrest.journal i (View.journal_iff.1 hi) with hr | hr
    · exact absurd (hs.symm.trans hr) (by decide)
    · exact absurd (hs.symm.trans hr) (by decide)
  have hwf := (View.durable_valid b₁.dev.mem).journal i hi
  have hno : ∀ s c, b₁.durable.metadata s = .record c → c.state ≠ BootImageState.trial.code := by
    intro s c hc
    by_cases hs : s = t
    · rw [hs] at hc
      obtain rfl := Register.Current.record.inj (hr.symm.trans hc)
      rw [hrs]
      decide
    · rw [Slot.eq_other_of_ne hs] at hc
      rcases (h.consistent.idle i t hi hit hidle).other hwf hit with hu | ⟨o, ho, hos, _⟩
      · exact absurd (hu.symm.trans hc) (by simp)
      · obtain rfl := Register.Current.record.inj (ho.symm.trans hc)
        rw [hos]
        decide
  have hanswer : ∀ b₂, BootManager.Answered b₁ b₂ → b₂.durable = b₁.durable ∧
      BootManager.target b₂ = BootLifecycle.targetOf t := by
    intro b₂ hans
    have hsame := hans.unchanged hno
    refine ⟨hsame, ?_⟩
    rw [← hsame] at hi hr
    exact (hrec.answered hans).target_pending (hsame ▸ h.consistent) hi hidle hit hr hrs
  have hwaits : b'.durable = b₁.durable → exit ≠ .jumped t →
      exit = BootManager.exitFor (BootManager.softwareRequested b₁ || b₁.hw.requestPin)
        b₁.hw.srs.sw (some t) →
      Delivered t j image (BootManager.softwareRequested b₁ || b₁.hw.requestPin) b₁.hw.srs.sw exit
        b'.durable ∧ ((∀ s, exit ≠ .jumped s) → Acknowledged j t image b'.durable) := by
    intro hsame hne hexit
    rw [hsame]
    exact ⟨⟨hexit, ⟨i, hi, hidle, hit, hid⟩, h.image,
      ⟨r, hr, hru, fun hj => absurd hj hne, fun _ => hrs⟩⟩, fun _ => h⟩
  cases hended with
  | programming b₂ hans halike hreason =>
    obtain ⟨hsame, htgt⟩ := hanswer b₂ hans
    refine hwaits ((BootManager.durable_of_dev halike.dev).trans hsame) (by simp) ?_
    rcases hreason with hreq | hnone
    · rw [hreq]
      rfl
    · rw [htgt, BootManager.slotOfTarget_targetOf] at hnone
      cases hnone
  | launched b₂ b₃ s exit hans halike _ hreq hsel hlaunched =>
    obtain ⟨hsame, htgt⟩ := hanswer b₂ hans
    rw [BootManager.target_congr halike, htgt, BootManager.slotOfTarget_targetOf] at hsel
    obtain rfl := Option.some.inj hsel
    have hd₃ : b₃.durable = b₁.durable := (BootManager.durable_of_dev halike.dev).trans hsame
    have hsw : b₃.hw.srs.sw = b₁.hw.srs.sw := by rw [halike.hw, hans.steady.hw]
    cases hlaunched with
    | reset hno hdev _ =>
      refine hwaits ((BootManager.durable_of_dev hdev).trans hd₃) (by simp) ?_
      rw [hreq, ← hsw, hno]
      rfl
    | jumped hyes hprep _ _ _ =>
      have hexit : BootExit.jumped t = BootManager.exitFor
          (BootManager.softwareRequested b₁ || b₁.hw.requestPin) b₁.hw.srs.sw (some t) := by
        rw [hreq, ← hsw, hyes]
        rfl
      rcases hprep.durable with ⟨c, next, hc, hw, hst, hd⟩ | ⟨c, hc, hcs, _⟩
      · obtain rfl := Register.Current.record.inj (hr.symm.trans (hd₃ ▸ hc))
        rw [hd, hd₃]
        refine ⟨⟨hexit, ⟨i, hi, hidle, hit, hid⟩, h.image, _, Durable.setMetadata_self, ?_, ?_,
          fun hne => absurd rfl hne⟩, fun hne => absurd rfl (hne t)⟩
        · cases hw <;> exact hru
        · intro _
          cases hw with
          | start reason _ => exact ⟨rfl, rfl⟩
          | retry _ htrial _ => exact absurd (hrs.symm.trans htrial) (by decide)
          | confirm _ htrial => exact absurd (hrs.symm.trans htrial) (by decide)
      · obtain rfl := Register.Current.record.inj (hr.symm.trans (hd₃ ▸ hc))
        exact absurd (hrs.symm.trans hcs) (by decide)

/-- A boot that is not interrupted delivers the update. -/
theorem delivered {e : Turn} {w : RetainedRecord} {exit : BootExit} {b : Board}
    (h : Acknowledged j t image (View.of d.mem).durable) (he : e.Sound)
    (hb : BootManager.run (e.restart w d) = .done exit b) :
    Consistent b.durable ∧ Delivered t j image
      (BootManager.softwareRequested (e.restart w d) || e.hw.requestPin) e.hw.srs.sw exit b.durable ∧
      ((∀ s, exit ≠ .jumped s) → Acknowledged j t image b.durable) := by
  obtain ⟨b₁, _, htrail, hbooted, hrest, hc, htrail', hended⟩ := h.consistent.ends he hb
  have h₁ : Acknowledged j t image b₁.durable :=
    Acknowledged.trail (e := (e.restart w d).dev) h htrail
  have hend := h₁.ended (hbooted.recovered hc) hrest hended
  have hrequested : BootManager.softwareRequested b₁ =
      BootManager.softwareRequested (e.restart w d) := by
    unfold BootManager.softwareRequested BootRequest.retainedRequest
    rw [hbooted.hw, hbooted.retained]
  rw [hrequested, hbooted.hw] at hend
  exact ⟨htrail'.launches hc, hend⟩

end Acknowledged

/-- Boots one after the other, none of which jumps: each is interrupted while it recovers, or ends in
    the server or with another reset. -/
inductive Restarts (d : Device Note) : Device Note → Prop where
  | none : Restarts d d
  | recover {d' : Device Note} (e : Turn) (he : e.Sound) (w : RetainedRecord) (h : Restarts d d') :
    Restarts d (BootManager.init (e.restart w d')).state.dev
  | boot {d' : Device Note} {exit : BootExit} {b : Board} (e : Turn) (he : e.Sound)
    (w : RetainedRecord) (h : Restarts d d') (hb : BootManager.run (e.restart w d') = .done exit b)
    (hexit : ∀ s, exit ≠ .jumped s) : Restarts d b.dev

theorem Restarts.acknowledged {j : BootUpdateJournal} {t : Slot} {image : Nat → Byte}
    {d d' : Device Note} (hd : Restarts d d') (h : Acknowledged j t image (View.of d.mem).durable) :
    Acknowledged j t image (View.of d'.mem).durable := by
  induction hd with
  | none => exact h
  | recover e he w _ ih =>
    have hruns := BootManager.lifts_init (he.restart w _) ih.consistent.unhindered
    exact Acknowledged.trail (e := (e.restart w _).dev) ih hruns.state_trail
  | boot e he w _ hb hexit ih => exact (ih.delivered he hb).2.2 hexit

/-- The image that has been sent is the one that the journal names. -/
theorem BootUds.Updated.acknowledged {t : Slot} {img : Nat → Byte} {b : Board}
    (h : BootUds.Updated t img b) (htail : BootProgramming.TailErased img)
    (hc : Consistent b.durable) : ∃ j, j.cachedHeader = BootUds.headerOf img ∧
      Acknowledged j t b.durable.image b.durable := by
  obtain ⟨j, hj, hst, ht, hheader⟩ := h.journal
  have hhdr := t.header_eq
  have hoff : BootProgramming.headerOffset = 225280 := rfl
  have hss : slotSize = 229376 := rfl
  have hfs : flashSectorSize = 4096 := rfl
  refine ⟨j, hheader, .of_pending hc (View.journal_iff.2 (BootJournal.loadLatest_iff.1 hj)) ht hst
    fun i hi => ?_⟩
  have hin : t.Contains (t.header + i) := ⟨by omega, by omega⟩
  show BootFlash.image b.mem (t.header + i) = _
  rw [BootFlash.image_of_slot _ hin, show t.header + i = t.base +
    (BootProgramming.headerOffset + i) by omega, h.image _ (by omega), hheader]
  by_cases hlow : i < BootImageHeader.size
  · rw [if_pos hlow]
    exact (BootImageHeader.bytes_ofBytes (fun i => img (BootProgramming.headerOffset + i)) hlow).symm
  · rw [if_neg hlow]
    exact htail _ (by omega) (by omega)

/-- An update that has been acknowledged is delivered.  Wherever the boots after it are interrupted,
    and whether they end in the server or with another reset, the slot keeps the bytes that were
    sent, and the first boot that comes to its end without a request for the server starts the
    image on its first attempt after a software reset, and asks for a software reset otherwise. -/
theorem Endures.update_delivered {b b' : Board} {t : Slot} {img : Nat → Byte} {d : Device Note}
    {e : Turn} {w : RetainedRecord} {exit : BootExit} (h : Endures (.serving b))
    (hu : BootUds.Updated t img b) (htail : BootProgramming.TailErased img)
    (hd : Restarts b.dev d) (he : e.Sound)
    (hb : BootManager.run (e.restart w d) = .done exit b') :
    exit = BootManager.exitFor
        (BootManager.softwareRequested (e.restart w d) || e.hw.requestPin) e.hw.srs.sw (some t) ∧
      (∀ i, i < slotSize → b'.mem (t.base + i) = img i) ∧
      (∃ j, BootJournal.Current b'.mem j ∧ j.state = BootUpdateState.idle.code ∧
        j.target = some t) ∧
      ∃ k r, BootMetadata.load t b'.mem = .valid k r ∧
        r.imageVersion = (BootUds.headerOf img).softwareVersion ∧
        (exit = .jumped t → r.state = BootImageState.trial.code ∧ r.bootAttempts = 1) ∧
        (exit ≠ .jumped t → r.state = BootImageState.pending.code) := by
  obtain ⟨-, hc⟩ := h.sound
  obtain ⟨j, hheader, hack⟩ := hu.acknowledged htail hc
  obtain ⟨hc', hdel, -⟩ := (hd.acknowledged hack).delivered he hb
  obtain ⟨i, hi, hidle, hit, -⟩ := hdel.journal
  obtain ⟨r, hr, -, hjumped, hwaits⟩ := hdel.record
  have himage : ∀ i, i < slotSize → b'.mem (t.base + i) = img i := by
    intro i hi
    have hin : t.Contains (t.base + i) := ⟨by omega, by omega⟩
    have hsame := hdel.image _ hin
    have hbefore : b.durable.image (t.base + i) = b.mem (t.base + i) :=
      BootFlash.image_of_slot _ hin
    have hafter : b'.durable.image (t.base + i) = b'.mem (t.base + i) :=
      BootFlash.image_of_slot _ hin
    rw [← hafter, hsame, hbefore]
    exact hu.image i hi
  obtain ⟨k, hk⟩ := BootMetadata.load_iff.2 (View.metadata_iff.1 hr)
  refine ⟨hdel.exits, himage, ⟨i, BootJournal.loadLatest_iff.2 (View.journal_iff.1 hi), hidle, hit⟩,
    k, r, hk, ?_, hjumped, hwaits⟩
  obtain ⟨c, hcr, -, hgood, -⟩ := (hc'.idle i t hi hit hidle).installed
  obtain rfl := Register.Current.record.inj (hr.symm.trans hcr)
  -- the version is in the header that was sent
  have hvalid := BootLifecycle.imageValid_iff.1 hgood.1
  rw [← hgood.2]
  unfold Durable.version
  rw [(BootImage.loadInfo_of_valid hvalid).2]
  refine congrArg BootImageHeader.softwareVersion (BootImageHeader.ofBytes_congr fun i hi => ?_)
  have hhdr := t.header_eq
  have hoff : BootProgramming.headerOffset = 225280 := rfl
  have hss : slotSize = 229376 := rfl
  have hsize : BootImageHeader.size = 64 := rfl
  have hin : t.Contains (t.header + i) := ⟨by omega, by omega⟩
  have hafter : b'.durable.image (t.header + i) = b'.mem (t.header + i) :=
    BootFlash.image_of_slot _ hin
  rw [hafter, show t.header + i = t.base + (BootProgramming.headerOffset + i) by omega]
  exact himage _ (by omega)

/-- A server that has acknowledged the first update of slot B. -/
theorem exists_updated : ∃ b, Endures (.serving b) ∧ BootUds.Updated .b updateImage b := by
  obtain ⟨b₀, hb₀, ho, hactive, hversion⟩ := exists_updatable
  have hdue : BootUds.Attended b₀ ∧ BootUds.Due .b updateImage (some .a) 0x01000000 0
      (BootUds.updateRequests .b updateImage (List.replicate 1792 128)) b₀ := by
    rw [← hactive, ← hversion]
    exact ho.due hb₀ fullBlocks.1 fullBlocks.2
  obtain ⟨hattended, hdue⟩ := hdue
  have hpaced := BootUds.paced_spec
    ((BootUds.updateRequests .b updateImage (List.replicate 1792 128)).map Prod.fst)
  obtain ⟨b, -, -, hb, k, hend⟩ :=
    hdue.replies shippable_updateImage hattended hb₀ hpaced.2.1 hpaced.2.2 hpaced.1
  exact ⟨b, hb, hend.updated⟩

/-- The first update of slot B.  The power is lost as soon as the device starts; the next start asks
    for a software reset, and the one after it starts the trial. -/
theorem Endures.update_delivered_restarted : ∃ (d : Device Note) (b₁ b₂ b₃ : Board),
    BootManager.init (Turn.severed.restart .cleared d) = .cut b₁ ∧
    BootManager.run (Turn.quiet.restart .cleared b₁.dev) = .done .reset b₂ ∧
    BootManager.run (Turn.softwareReset.restart .cleared b₂.dev) = .done (.jumped .b) b₃ ∧
    ∃ k r, BootMetadata.load .b b₃.mem = .valid k r ∧ r.imageVersion = 0x02000000 ∧
      r.state = BootImageState.trial.code := by
  obtain ⟨b, hb, hupdated⟩ := exists_updated
  have htail := shippable_updateImage.tail
  obtain ⟨j, hj, hst, -⟩ := hupdated.journal
  have hactive : ¬ Resting j := by
    unfold Resting
    rw [hst]
    decide
  obtain ⟨i, -, hack⟩ := hupdated.acknowledged htail hb.sound.2
  -- the power is lost
  obtain ⟨b₁, hcut, -⟩ := Consistent.severed (d := b.dev) hb.sound.2 hj hactive .cleared
  have h₁ : Restarts b.dev b₁.dev := by
    have h := Restarts.none.recover (d := b.dev) Turn.severed Turn.sound_severed .cleared
    rw [hcut] at h
    exact h
  -- the power is switched on
  have hquiet := Turn.calm_quiet
  obtain ⟨exit, b₂, hreset⟩ := (h₁.acknowledged hack).consistent.exists_boot hquiet .cleared
  obtain rfl : exit = .reset :=
    (Endures.update_delivered hb hupdated htail h₁ hquiet.sound hreset).1
  have h₂ : Restarts b.dev b₂.dev := h₁.boot _ hquiet.sound _ hreset fun _ => nofun
  -- the start after the software reset
  have he := Turn.calm_softwareReset
  obtain ⟨exit, b₃, hrun⟩ := (h₂.acknowledged hack).consistent.exists_boot he .cleared
  obtain ⟨hexit, -, -, k, r, hr, hrversion, hjumped, -⟩ :=
    Endures.update_delivered hb hupdated htail h₂ he.sound hrun
  obtain rfl : exit = .jumped .b := hexit
  have hheader : (BootUds.headerOf updateImage).softwareVersion = 0x02000000 := by decide +kernel
  exact ⟨b.dev, b₁, b₂, b₃, hcut, hreset, hrun, k, r, hr, hrversion.trans hheader,
    (hjumped rfl).1⟩
