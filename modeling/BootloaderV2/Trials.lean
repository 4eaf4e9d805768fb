import BootloaderV2.Confirmation

/-!
# The attempts of a trial

`BootLifecycle_PrepareBoot` counts an attempt on flash before `BootJump_ToSlot` is reached, and what
has been counted stays.  So the record bounds the starts of an image that is never confirmed,
wherever the boots are interrupted.
-/

open BootConfig NorFlash CrashM TwoCopy

/-- One step of a boot that is asked for no confirmation. -/
inductive Tries (d : Durable) : Durable → Prop where
  | recover {d' : Durable} (h : Recovers d d') : Tries d d'
  | attempt (j : BootUpdateJournal) (s : Slot) (r next : BootSlotMetadata)
    (hj : d.journal = .record j) (hrest : Resting j) (hr : d.metadata s = .record r)
    (h : LaunchWrite r next) (hst : next.state = BootImageState.trial.code) :
    Tries d (d.setMetadata s (BootMetadata.completed s (r.sequence + 1) next))

theorem Consistent.tries {d d' : Durable} (h : Consistent d) (hv : d.Valid) (hd : Tries d d') :
    Consistent d' := by
  cases hd with
  | recover hd => exact h.recovers hv hd
  | attempt j s r next hj hrest hr hw _ =>
    exact h.launches hv (fun _ hj => hj) (.write j s r next hj hrest hr hw)

namespace BootManager

variable {R : View → View → Prop} {b : Board}

/-- Without a request for a confirmation CHECK_REQUEST leaves the flash alone. -/
theorem runs_checkRequest_silent (hnone : confirmRequest b = .none) :
    Runs R checkRequest (Checked b) b := by
  unfold checkRequest
  rw [Runs.bind_get]
  dsimp only
  rw [show (if BootRequest.retainedRequest b confirmMagic = true then
    BootRequest.getRequestedSlot b.retained else none) = confirmRequest b from rfl, hnone]
  dsimp only
  apply runs_captureActiveSlot.bind
  rintro _ b₁ _ ⟨halike, _, _, _⟩
  refine .ite (fun _ => ?_) fun _ => .pure ⟨rfl, b, .none hnone (.refl b), halike⟩
  exact ⟨.refl _, rfl, b, .none hnone (.refl b), ⟨halike.flash, halike.update, halike.fault,
    halike.reason, halike.programming, halike.security, halike.hw⟩, halike.dev, halike.metadata,
    halike.status⟩

end BootManager

/-- A boot that is asked for no confirmation. -/
theorem Consistent.tries_run {d : Device Note} (h : Consistent (View.of d.mem).durable) {e : Turn}
    (he : e.Sound) {w : RetainedRecord}
    (hnone : BootManager.confirmRequest (e.restart w d) = none) :
    Runs (Lift Tries) BootManager.run (fun exit b' => ∃ b₁,
      Trail (Lift Tries) (e.restart w d).dev b₁.dev ∧ BootManager.Booted (e.restart w d) b₁ ∧
      Rested b₁.view ∧ Consistent b₁.durable ∧ BootManager.Ended b₁ b' exit) (e.restart w d) := by
  have hc : Consistent (e.restart w d).durable := h
  have hinit := (BootManager.lifts_init (he.restart w d) hc.unhindered).lift_mono
    fun _ _ hd => Tries.recover hd
  unfold BootManager.run
  apply (hinit.and_ensures Ensures.self).bind
  rintro _ b₁ htrail ⟨_, hdone⟩
  obtain ⟨_, hbooted, hrest, hc₁⟩ := h.rested he hdone
  have hnone₁ := hbooted.confirmRequest.trans hnone
  refine (BootManager.ends_of_checked hbooted hrest hc₁ (htrail.faultless (he.restart w d))
    (BootManager.runs_checkRequest_silent hnone₁) (fun _ _ hv hd hc => hc.tries hv hd) ?_).mono ?_
  · rintro b₃ s hjournal ⟨j, hj⟩ r next hr hw hst
    have hj₁ : b₁.view.Journal j := by
      unfold View.Journal
      rw [← hjournal]
      exact hj
    exact .attempt j s r next (View.journal_iff.2 hj) (hrest.journal j hj₁)
      (View.metadata_iff.2 hr) hw hst
  · intro exit b' _ hended
    exact ⟨b₁, htrail, hbooted, hrest, hc₁, hended⟩

/-! ## What has been counted -/

/-- The record of an image that has been started `n` times at most and is not confirmed. -/
inductive Counted (r : BootSlotMetadata) (n : Nat) : Prop where
  | pending (hst : r.state = BootImageState.pending.code) (hn : n = 0)
  | trial (hst : r.state = BootImageState.trial.code) (hn : n ≤ r.bootAttempts.toNat)
  | invalid (hst : r.state = BootImageState.invalid.code) (hn : n ≤ maxTrialAttempts.toNat)

namespace Counted

variable {r next : BootSlotMetadata} {n : Nat}

/-- The next record of a trial has one attempt more. -/
theorem attempt (h : Counted r n) (hw : LaunchWrite r next)
    (hst : next.state = BootImageState.trial.code) : n + 1 ≤ next.bootAttempts.toNat := by
  cases hw with
  | start _ hpending =>
    cases h with
    | pending _ hn =>
      show n + 1 ≤ (1 : Word).toNat
      rw [hn]
      decide
    | trial htrial _ => exact absurd (htrial.symm.trans hpending) (by decide)
    | invalid hinvalid _ => exact absurd (hinvalid.symm.trans hpending) (by decide)
  | retry _ htrial ha =>
    cases h with
    | pending hpending _ => exact absurd (hpending.symm.trans htrial) (by decide)
    | invalid hinvalid _ => exact absurd (hinvalid.symm.trans htrial) (by decide)
    | trial _ hn =>
      have hmax : maxTrialAttempts.toNat = 3 := rfl
      have hlt : r.bootAttempts.toNat < maxTrialAttempts.toNat := Nat.lt_of_not_le ha
      have hone : (1 : Word).toNat = 1 := rfl
      have hnext : (r.bootAttempts + 1).toNat = r.bootAttempts.toNat + 1 := by
        rw [BitVec.toNat_add, hone]
        exact Nat.mod_eq_of_lt (by omega)
      show n + 1 ≤ (r.bootAttempts + 1).toNat
      omega
  | confirm _ _ =>
    have hstate : BootImageState.confirmed.code = BootImageState.trial.code := hst
    exact absurd hstate (by decide)

theorem le (h : Counted r n) (hwf : BootMetadata.WellFormed r) : n ≤ maxTrialAttempts.toNat := by
  cases h with
  | pending _ hn => omega
  | trial hst hn => exact Nat.le_trans hn hwf.bootAttempts
  | invalid _ hn => exact hn

end Counted

/-- The transaction for slot `t` waits for its handover, or it has been finished and its image has
    been started `n` times at most. -/
structure Unproven (t : Slot) (n : Nat) (d : Durable) : Prop where
  consistent : Consistent d
  journal : ∃ j, d.journal = .record j ∧ j.target = some t ∧
    (j.state = BootUpdateState.pendingActivation.code ∧ n = 0 ∨
      j.state = BootUpdateState.idle.code ∧ ∃ r, d.metadata t = .record r ∧ Counted r n)

namespace Unproven

variable {t : Slot} {n : Nat} {d d' : Durable}

theorem le (h : Unproven t n d) (hv : d.Valid) : n ≤ maxTrialAttempts.toNat := by
  obtain ⟨j, _, _, hwaits | ⟨_, r, hr, hcounted⟩⟩ := h.journal
  · omega
  · exact hcounted.le (hv.metadata t r hr)

theorem recovers (h : Unproven t n d) (hv : d.Valid) (hd : Recovers d d') : Unproven t n d' := by
  have hc := h.consistent.recovers hv hd
  obtain ⟨j, hj, ht, hcase⟩ := h.journal
  have hstate := hcase.imp And.left And.left
  have hnot : j.state = BootUpdateState.pendingActivation.code →
      j.state ≠ BootUpdateState.idle.code := fun hp => by
    rw [hp]
    decide
  cases hd.settles h.consistent hj ht hstate with
  | handOff r hst hr hfor =>
    have hn : n = 0 := by
      rcases hcase with ⟨_, hn⟩ | ⟨hidle, _⟩
      · exact hn
      · exact absurd hidle (hnot hst)
    exact ⟨hc, _, rfl, ht, .inr ⟨rfl, r, hr, .pending hfor.1 hn⟩⟩
  | record s next hst =>
    refine ⟨hc, j, hj, ht, hcase.imp_right fun hidle => ?_⟩
    exact absurd hidle.1 (hnot hst)
  | fail s r next hr htrial hattempts hnext =>
    refine ⟨hc, j, hj, ht, hcase.imp_right fun hidle => ?_⟩
    obtain ⟨hidle, c, hcr, hcounted⟩ := hidle
    refine ⟨hidle, ?_⟩
    by_cases hst : s = t
    · subst hst
      obtain rfl := Register.Current.record.inj (hcr.symm.trans hr)
      exact ⟨next, Durable.setMetadata_self, .invalid hnext (hcounted.le (hv.metadata s c hcr))⟩
    · rw [Durable.setMetadata_of_ne (Ne.symm hst)]
      exact ⟨c, hcr, hcounted⟩
  | publish img hst _ _ =>
    refine ⟨hc, j, hj, ht, hcase.imp_right fun hidle => ?_⟩
    exact absurd hidle.1 (hnot hst)

/-- A journal at rest is not one that waits for the handover. -/
theorem finished {j : BootUpdateJournal} (h : Unproven t n d) (hj : d.journal = .record j)
    (hrest : Resting j) : j.target = some t ∧ j.state = BootUpdateState.idle.code ∧
      ∃ r, d.metadata t = .record r ∧ Counted r n := by
  obtain ⟨i, hi, ht, hcase⟩ := h.journal
  obtain rfl := Register.Current.record.inj (hj.symm.trans hi)
  refine ⟨ht, hcase.resolve_left fun hpending => ?_⟩
  rcases hrest with hs | hs
  · exact absurd (hpending.1.symm.trans hs) (by decide)
  · exact absurd (hpending.1.symm.trans hs) (by decide)

/-- Between transactions a new trial of a slot leaves the other one as it was. -/
theorem attempt {j : BootUpdateJournal} {s : Slot} {r next : BootSlotMetadata}
    (h : Unproven t n d) (hj : d.journal = .record j) (hrest : Resting j)
    (hr : d.metadata s = .record r) (hw : LaunchWrite r next)
    (hst : next.state = BootImageState.trial.code) (hc : Consistent (d.setMetadata s
      (BootMetadata.completed s (r.sequence + 1) next))) :
    Unproven t (n + if s = t then 1 else 0) (d.setMetadata s
      (BootMetadata.completed s (r.sequence + 1) next)) := by
  obtain ⟨ht, hidle, c, hcr, hcounted⟩ := h.finished hj hrest
  refine ⟨hc, j, hj, ht, .inr ⟨hidle, ?_⟩⟩
  by_cases hslot : s = t
  · subst hslot
    obtain rfl := Register.Current.record.inj (hcr.symm.trans hr)
    refine ⟨_, Durable.setMetadata_self, .trial hst ?_⟩
    rw [if_pos rfl]
    show n + 1 ≤ next.bootAttempts.toNat
    exact hcounted.attempt hw hst
  · refine ⟨c, ?_, ?_⟩
    · rw [Durable.setMetadata_of_ne (Ne.symm hslot)]
      exact hcr
    · rw [if_neg hslot]
      exact hcounted

/-- What has been counted stays counted. -/
theorem weaken {m : Nat} (h : Unproven t n d) (hm : m ≤ n) : Unproven t m d := by
  obtain ⟨j, hj, ht, hcase⟩ := h.journal
  refine ⟨h.consistent, j, hj, ht, ?_⟩
  rcases hcase with ⟨hst, hn⟩ | ⟨hst, r, hr, hcounted⟩
  · exact .inl ⟨hst, by omega⟩
  · refine .inr ⟨hst, r, hr, ?_⟩
    cases hcounted with
    | pending hst hn => exact .pending hst (by omega)
    | trial hst hn => exact .trial hst (by omega)
    | invalid hst hn => exact .invalid hst (by omega)

theorem tries (h : Unproven t n d) (hv : d.Valid) (hd : Tries d d') : Unproven t n d' := by
  have hc := h.consistent.tries hv hd
  cases hd with
  | recover hd => exact h.recovers hv hd
  | attempt j s r next hj hrest hr hw hst =>
    exact (h.attempt hj hrest hr hw hst hc).weaken (by omega)

theorem trail {e e' : Device Note} (h : Unproven t n (View.of e.mem).durable)
    (ht : Trail (Lift Tries) e e') : Unproven t n (View.of e'.mem).durable :=
  ht.durable (fun _ _ hv hs h => h.tries hv hs) h

end Unproven

/-! ## The starts of an image -/

/-- The jumps to slot `t` at the end of a boot. -/
def BootManager.starts (t : Slot) : Outcome Board BootExit → Nat
  | .done (.jumped s) _ => if s = t then 1 else 0
  | _ => 0

/-- Boots one after the other, none of which is asked for a confirmation, with the number of jumps
    to slot `t`. -/
inductive Unconfirmed (t : Slot) (d : Device Note) : Nat → Device Note → Prop where
  | none : Unconfirmed t d 0 d
  | boot {n : Nat} {d' : Device Note} (e : Turn) (he : e.Sound) (w : RetainedRecord)
    (h : Unconfirmed t d n d') (hnone : BootManager.confirmRequest (e.restart w d') = .none) :
    Unconfirmed t d (n + BootManager.starts t (BootManager.run (e.restart w d')))
      (BootManager.run (e.restart w d')).state.dev

/-- A boot adds to the record what it adds to the starts. -/
theorem Unproven.boot {t : Slot} {n : Nat} {d : Device Note} {e : Turn} {w : RetainedRecord}
    (h : Unproven t n (View.of d.mem).durable) (he : e.Sound)
    (hnone : BootManager.confirmRequest (e.restart w d) = none) :
    Unproven t (n + BootManager.starts t (BootManager.run (e.restart w d)))
      (View.of (BootManager.run (e.restart w d)).state.dev.mem).durable := by
  have hruns := h.consistent.tries_run he hnone
  have hend : Unproven t n (View.of (BootManager.run (e.restart w d)).state.dev.mem).durable :=
    Unproven.trail (e := (e.restart w d).dev) h hruns.state_trail
  cases hrun : BootManager.run (e.restart w d) with
  | cut b =>
    rw [hrun] at hend
    exact hend
  | done exit b =>
    rw [hrun] at hend
    have hb : Unproven t n b.durable := hend
    obtain ⟨b₁, htrail, hbooted, hrest, hc₁, hended⟩ := (hruns.of_done hrun).2
    have h₁ : Unproven t n b₁.durable :=
      Unproven.trail (e := (e.restart w d).dev) h htrail
    cases hended with
    | programming => exact hb
    | launched b₂ b₃ s exit hans halike _ _ _ hlaunched =>
      have halike₁ := (hans.alike_of_none (hbooted.confirmRequest.trans hnone)).trans halike
      have hd₃ : b₃.durable = b₁.durable := BootManager.durable_of_dev halike₁.dev
      rw [← hd₃] at h₁
      cases hlaunched with
      | reset => exact hb
      | jumped _ hprep _ _ _ =>
        show Unproven t (n + if s = t then 1 else 0) b.durable
        obtain ⟨j, hj, _⟩ := h₁.journal
        have hjr : Resting j := hrest.journal j (View.journal_iff.1 (by rw [hd₃] at hj; exact hj))
        rcases hprep.durable with ⟨r, next, hr, hw, hst, hd⟩ | ⟨r, hr, hst, hd⟩
        · rw [hd] at hb ⊢
          exact h₁.attempt hj hjr hr hw hst hb.consistent
        · -- the slot that is started as it is has been confirmed
          obtain ⟨_, _, c, hcr, hcounted⟩ := h₁.finished hj hjr
          have hne : s ≠ t := by
            rintro rfl
            obtain rfl := Register.Current.record.inj (hcr.symm.trans hr)
            cases hcounted with
            | pending h _ => exact absurd (h.symm.trans hst) (by decide)
            | trial h _ => exact absurd (h.symm.trans hst) (by decide)
            | invalid h _ => exact absurd (h.symm.trans hst) (by decide)
          rw [if_neg hne]
          exact hb

theorem Unconfirmed.unproven {t : Slot} {n : Nat} {d d' : Device Note}
    (h : Unconfirmed t d n d') (h₀ : Unproven t 0 (View.of d.mem).durable) :
    Unproven t n (View.of d'.mem).durable := by
  induction h with
  | none => exact h₀
  | boot e he w _ hnone ih => exact ih.boot he hnone

/-- An image that is never confirmed is started three times at most.  The boots after its
    transaction has been acknowledged may be interrupted anywhere, in the middle of the write of a
    record too, and may start the other slot in between. -/
theorem Endures.trial_budget {b : Board} {j : BootUpdateJournal} {t : Slot} {n : Nat}
    {d : Device Note} (h : Endures (.serving b)) (hj : BootJournal.Current b.mem j)
    (hst : j.state = BootUpdateState.pendingActivation.code) (ht : j.target = some t)
    (hd : Unconfirmed t b.dev n d) : n ≤ maxTrialAttempts.toNat := by
  have hc := h.sound.2
  have hcurrent : b.durable.journal = .record j := View.journal_iff.2 (BootJournal.loadLatest_iff.1 hj)
  have h₀ : Unproven t 0 b.durable := ⟨hc, j, hcurrent, ht, .inl ⟨hst, rfl⟩⟩
  exact (hd.unproven h₀).le (View.durable_valid d.mem)

/-- Three software resets after the first update of slot B. -/
theorem Endures.trial_budget_spent : ∃ (b : Board) (d : Device Note),
    Unconfirmed .b b.dev 3 d ∧ 3 ≤ maxTrialAttempts.toNat := by
  obtain ⟨b₀, hb₀, hupdated⟩ := exists_updated
  obtain ⟨j, hj, hst, ht, _⟩ := hupdated.journal
  have he := Turn.calm_softwareReset
  have hstep : ∀ {n : Nat} {d : Device Note} {b : Board}, Unconfirmed .b b₀.dev n d →
      BootManager.run (Turn.softwareReset.restart .cleared d) = .done (.jumped .b) b →
      Unconfirmed .b b₀.dev (n + 1) b.dev := by
    intro n d b h hrun
    have hboot := Unconfirmed.boot Turn.softwareReset he.sound .cleared h rfl
    rw [hrun] at hboot
    exact hboot
  obtain ⟨b₁, r₁, hrun₁, h₁, ha₁⟩ := exists_first_start hb₀ hupdated
  obtain ⟨b₂, r₂, hrun₂, h₂, ha₂⟩ := OnTrial.exists_retry (d := b₁.dev) h₁ (by rw [ha₁]; decide)
  rw [ha₁] at ha₂
  obtain ⟨b₃, _, hrun₃, _, _⟩ := OnTrial.exists_retry (d := b₂.dev) h₂ (by rw [ha₂]; decide)
  have hthree := hstep (hstep (hstep .none hrun₁) hrun₂) hrun₃
  exact ⟨b₀, b₃.dev, hthree, Endures.trial_budget hb₀ hj hst ht hthree⟩
