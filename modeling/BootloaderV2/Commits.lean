import BootloaderV2.View

/-!
# Record writes as steps on the durable state

Every command of a commit changes one register, as `Register.Step` allows; without a fault the new
record is the current one when the commit returns.
-/

open BootConfig NorFlash CrashM TwoCopy

namespace TwoCopy.Port

variable {σ ε R : Type} {P : Port σ ε} {F : Format R} {k : Fin 2} {next : R} {m₀ m m' : Nat → Byte}
  {c : Command}

/-- A write stays inside the sector of its copy. -/
theorem WriteStep.outside (h : P.WriteStep F k next m₀ c m m') :
    SameOutside (P.base k) P.sector m₀ m ∧ SameOutside (P.base k) P.sector m₀ m' := by
  cases h with
  | erase _ h =>
    refine ⟨.refl _ _ _, ?_⟩
    rcases h with rfl | hw
    · exact .refl _ _ _
    · exact hw.outside
  | program p q _ _ _ _ _ _ hm hm' => exact ⟨hm.outside, hm'.outside⟩

theorem Stage.outside (h : P.Stage F k next m₀ m) : SameOutside (P.base k) P.sector m₀ m := by
  rcases h with rfl | ⟨p, -, hw⟩
  · exact .refl _ _ _
  · exact hw.outside

end TwoCopy.Port

namespace BootJournal

variable {R : View → View → Prop} {b : Board} {j r : BootUpdateJournal}
  {o : Option BootUpdateJournal}

theorem register_of_view (h : b.view.journal = .valid j o) :
    ∃ k, loadLatest b.mem = .valid k j := by
  obtain ⟨k, hk, -⟩ := recordFormat.load_of_register h
  exact ⟨k, hk⟩

/-- The current record as `BootJournal_LoadLatest` finds it. -/
theorem loadLatest_iff {mem : Nat → Byte} :
    (∃ k, loadLatest mem = .valid k j) ↔ (View.of mem).Journal j := by
  constructor
  · rintro ⟨k, hk⟩
    exact ⟨_, recordFormat.register_of_load hk⟩
  · rintro ⟨o, ho⟩
    obtain ⟨k, hk, -⟩ := recordFormat.load_of_register ho
    exact ⟨k, hk⟩

theorem runs_commit (hready : b.ram.flash.ready = true) (hf : b.dev.Faultless)
    (hv : b.view.journal = .valid j o) (hwf : WellFormed r)
    (hR : ∀ o' g, Register.Step (completed (j.sequence + 1) r) (.valid j o') g →
      R { b.view with journal := .valid j o' } { b.view with journal := g }) :
    Runs R (commit r)
      (fun res b' => ∃ d', b' = b.setDev d' ∧ res = some (completed (j.sequence + 1) r) ∧
        View.of d'.mem =
          { b.view with journal := .valid (completed (j.sequence + 1) r) (some j) }) b := by
  obtain ⟨k, hl⟩ := register_of_view hv
  have hvalid := validate_completed (j.sequence + 1) hwf
  have htrail : ∀ d, Evolves (WriteStep (1 - k) (completed (j.sequence + 1) r) b.mem) b.dev d →
      Trail R b.dev d := by
    intro d hev
    refine hev.mono fun c m m' hstep => ?_
    obtain ⟨hreg, hload⟩ := hstep.register recordFormat_size_le hl rfl hvalid
    have hm : BootJournal.register m = .valid j _ := recordFormat.register_of_load hload
    rw [View.of_journal hstep.outside.1, View.of_journal hstep.outside.2, hm]
    exact hR _ _ (hm ▸ hreg)
  refine wp_mono (wp_commit hready hl hwf) ?_ ?_
  · rintro res b' ⟨d', rfl, hw⟩
    refine ⟨htrail _ hw.evolves, d', rfl, ?_⟩
    cases res with
    | none => exact absurd hf (hw.fault rfl)
    | some r' =>
      obtain ⟨rfl, -, hreg⟩ := hw.stored r' rfl
      refine ⟨rfl, ?_⟩
      rw [View.of_journal hw.stage.outside, hreg]
      rfl
  · rintro b' ⟨hev, -, hcut⟩
    exact ⟨htrail _ hev, hcut⟩

/-- The first record of a journal in which neither copy is valid. -/
theorem runs_initializeStore (hready : b.ram.flash.ready = true) (hf : b.dev.Faultless)
    (hu : b.view.journal.Unset) (hwf : WellFormed r)
    (hR : ∀ g g', g.Unset → Register.Step (completed 1 r) g g' →
      R { b.view with journal := g } { b.view with journal := g' }) :
    Runs R (initializeStore r)
      (fun res b' => ∃ d', b' = b.setDev d' ∧ res = some (completed 1 r) ∧
        View.of d'.mem = { b.view with journal := .valid (completed 1 r) none }) b := by
  have hvalid := validate_completed 1 hwf
  have htrail : ∀ d, Evolves (WriteStep 0 (completed 1 r) b.mem) b.dev d → Trail R b.dev d := by
    intro d hev
    refine hev.mono fun c m m' hstep => ?_
    obtain ⟨hreg, hunset⟩ := hstep.register_unset recordFormat_size_le hu hvalid
    rw [View.of_journal hstep.outside.1, View.of_journal hstep.outside.2]
    exact hR _ _ hunset hreg
  refine wp_mono (wp_initializeStore hready hu hwf) ?_ ?_
  · rintro res b' ⟨d', rfl, hw⟩
    refine ⟨htrail _ hw.evolves, d', rfl, ?_⟩
    cases res with
    | none => exact absurd hf (hw.fault rfl)
    | some r' =>
      obtain ⟨rfl, hreg⟩ := hw.stored r' rfl
      refine ⟨rfl, ?_⟩
      rw [View.of_journal hw.stage.outside, hreg]
      rfl
  · rintro b' ⟨hev, -, hcut⟩
    exact ⟨htrail _ hev, hcut⟩

end BootJournal

namespace BootMetadata

variable {R : View → View → Prop} {b : Board} {s : Slot} {old r : BootSlotMetadata}
  {o : Option BootSlotMetadata}

theorem load_iff {mem : Nat → Byte} :
    (∃ k, load s mem = .valid k r) ↔ (View.of mem).Metadata s r := by
  constructor
  · rintro ⟨k, hk⟩
    exact ⟨_, (recordFormat s).register_of_load hk⟩
  · rintro ⟨o, ho⟩
    obtain ⟨k, hk, -⟩ := (recordFormat s).load_of_register ho
    exact ⟨k, hk⟩

/-- The status of a store in terms of its register. -/
def registerStatus : Register BootSlotMetadata → BootMetadataStatus
  | .valid _ _ => .valid
  | .empty => .empty
  | _ => .invalid

theorem status_load (s : Slot) (mem : Nat → Byte) :
    status (load s mem) = registerStatus ((View.of mem).metadata s) := by
  show status (load s mem) = registerStatus ((recordFormat s).register (copies s mem))
  unfold Format.register load
  cases (recordFormat s).load (copies s mem) with
  | valid k r => rfl
  | empty => rfl
  | invalid => dsimp only; split <;> rfl

/-- What the commands of a write after the current record do to the durable state. -/
theorem trail_of_write {next : BootSlotMetadata} {k : Fin 2} {d : Device Note}
    (hl : load s b.mem = .valid k old) (hwf : WellFormed next)
    (hR : ∀ o' g, Register.Step (completed s (old.sequence + 1) next) (.valid old o') g →
      R (b.view.setMetadata s (.valid old o')) (b.view.setMetadata s g))
    (h : Evolves (WriteStep s (1 - k) (completed s (old.sequence + 1) next) b.mem) b.dev d) :
    Trail R b.dev d := by
  refine h.mono fun c m m' hstep => ?_
  obtain ⟨hreg, hload⟩ := hstep.register (recordFormat_size_le s) hl rfl
    (validate_completed s (old.sequence + 1) hwf)
  have hm : BootMetadata.register s m = .valid old _ := (recordFormat s).register_of_load hload
  rw [View.of_metadata hstep.outside.1, View.of_metadata hstep.outside.2, hm]
  exact hR _ _ (hm ▸ hreg)

/-- A call that has a record to write. -/
theorem runs_call {next : BootSlotMetadata} (c : Call) (hready : b.ram.flash.ready = true)
    (hf : b.dev.Faultless) (hv : b.view.metadata s = .valid old o)
    (hreq : c.request old = .write next) (hwf : WellFormed next)
    (hR : ∀ o' g, Register.Step (completed s (old.sequence + 1) next) (.valid old o') g →
      R (b.view.setMetadata s (.valid old o')) (b.view.setMetadata s g)) :
    Runs R (c.run s)
      (fun ok b' => ∃ d', b' = b.setDev d' ∧ ok = true ∧
        View.of d'.mem = b.view.setMetadata s
          (.valid (completed s (old.sequence + 1) next) (some old))) b := by
  obtain ⟨k, hl, -⟩ := (recordFormat s).load_of_register hv
  have hspec := wp_call (b := b) c hready hl
  rw [hreq] at hspec
  refine wp_mono hspec ?_ ?_
  · rintro ok b' ⟨d', rfl, hw⟩
    refine ⟨trail_of_write hl hwf hR hw.evolves, d', rfl, ?_⟩
    cases ok with
    | false => exact absurd hf (hw.fault rfl)
    | true =>
      refine ⟨rfl, ?_⟩
      rw [View.of_metadata hw.stage.outside, (hw.stored rfl).2]
      rfl
  · rintro b' ⟨hev, -, hcut⟩
    exact ⟨trail_of_write hl hwf hR hev, hcut⟩

/-- A commit that the transition table allows. -/
theorem runs_commit {next : BootSlotMetadata} (hready : b.ram.flash.ready = true)
    (hf : b.dev.Faultless) (hv : b.view.metadata s = .valid old o)
    (hallowed : transitionAllowed old next = true) (hwf : WellFormed next)
    (hR : ∀ o' g, Register.Step (completed s (old.sequence + 1) next) (.valid old o') g →
      R (b.view.setMetadata s (.valid old o')) (b.view.setMetadata s g)) :
    Runs R (commit s next)
      (fun res b' => ∃ d', b' = b.setDev d' ∧ res = some (completed s (old.sequence + 1) next) ∧
        View.of d'.mem = b.view.setMetadata s
          (.valid (completed s (old.sequence + 1) next) (some old))) b := by
  obtain ⟨k, hl, -⟩ := (recordFormat s).load_of_register hv
  refine wp_mono (wp_writeRecord hready hl (.inr hallowed) hwf) ?_ ?_
  · rintro res b' ⟨d', rfl, hres, hw⟩
    refine ⟨trail_of_write hl hwf hR hw.evolves, d', rfl, ?_⟩
    cases res with
    | none => exact absurd hf (hw.fault rfl)
    | some r' =>
      obtain rfl := hres r' rfl
      refine ⟨rfl, ?_⟩
      rw [View.of_metadata hw.stage.outside, (hw.stored rfl).2]
      rfl
  · rintro b' ⟨hev, -, hcut⟩
    exact ⟨trail_of_write hl hwf hR hev, hcut⟩

/-- A call that asks for what is recorded already. -/
theorem runs_call_recorded (c : Call) (hready : b.ram.flash.ready = true)
    (hv : b.view.metadata s = .valid old o) (hreq : c.request old = .recorded) :
    Runs R (c.run s) (fun ok b' => ok = true ∧ b' = b) b := by
  obtain ⟨k, hl, -⟩ := (recordFormat s).load_of_register hv
  have hspec := wp_call (b := b) c hready hl
  rw [hreq] at hspec
  refine wp_mono hspec ?_ fun _ h => h.elim
  rintro ok b' ⟨d', rfl, rfl, rfl⟩
  exact ⟨.refl _, rfl, rfl⟩

/-- A call that the arguments or the transition table rule out. -/
theorem runs_call_refused (c : Call) (hready : b.ram.flash.ready = true)
    (hv : b.view.metadata s = .valid old o) (hreq : c.request old = .refused) :
    Runs R (c.run s) (fun ok b' => ok = false ∧ b' = b) b := by
  obtain ⟨k, hl, -⟩ := (recordFormat s).load_of_register hv
  have hspec := wp_call (b := b) c hready hl
  rw [hreq] at hspec
  refine wp_mono hspec ?_ fun _ h => h.elim
  rintro ok b' ⟨d', rfl, rfl, rfl⟩
  exact ⟨.refl _, rfl, rfl⟩

/-- The first record of a store in which neither copy is valid. -/
theorem runs_writeRecord_first {p : Bool} (hready : b.ram.flash.ready = true)
    (hf : b.dev.Faultless) (hu : (b.view.metadata s).Unset)
    (hallowed : p = true ∨ r.state = BootImageState.confirmed.code)
    (hwf : WellFormed r)
    (hR : ∀ g g', g.Unset → Register.Step (completed s 1 r) g g' →
      R (b.view.setMetadata s g) (b.view.setMetadata s g')) :
    Runs R (writeRecord s r (status (load s b.mem)) p)
      (fun res b' => ∃ d', b' = b.setDev d' ∧ res.isSome = true ∧
        View.of d'.mem = b.view.setMetadata s (.valid (completed s 1 r) none)) b := by
  have hvalid := validate_completed s 1 hwf
  have htrail : ∀ d, Evolves (WriteStep s 0 (completed s 1 r) b.mem) b.dev d →
      Trail R b.dev d := by
    intro d hev
    refine hev.mono fun c m m' hstep => ?_
    obtain ⟨hreg, hunset⟩ := hstep.register_unset (recordFormat_size_le s) hu hvalid
    rw [View.of_metadata hstep.outside.1, View.of_metadata hstep.outside.2]
    exact hR _ _ hunset hreg
  refine wp_mono (wp_writeRecord_first hready hu hallowed hwf) ?_ ?_
  · rintro res b' ⟨d', rfl, hw⟩
    refine ⟨htrail _ hw.evolves, d', rfl, ?_⟩
    cases res with
    | none => exact absurd hf (hw.fault rfl)
    | some r' =>
      refine ⟨rfl, ?_⟩
      rw [View.of_metadata hw.stage.outside, hw.stored rfl]
      rfl
  · rintro b' ⟨hev, -, hcut⟩
    exact ⟨htrail _ hev, hcut⟩

theorem runs_installVerified_first {version counter reason : Word}
    (hready : b.ram.flash.ready = true) (hf : b.dev.Faultless) (hu : (b.view.metadata s).Unset)
    (hwf : WellFormed (verifiedRecord version counter reason))
    (hR : ∀ g g', g.Unset →
      Register.Step (completed s 1 (verifiedRecord version counter reason)) g g' →
      R (b.view.setMetadata s g) (b.view.setMetadata s g')) :
    Runs R (installVerified s version counter reason)
      (fun ok b' => ∃ d', b' = b.setDev d' ∧ ok = true ∧ View.of d'.mem = b.view.setMetadata s
        (.valid (completed s 1 (verifiedRecord version counter reason)) none)) b := by
  obtain ⟨l, hl, hcase, -⟩ := unset_iff hu
  have hspec := (runs_writeRecord_first (R := R) (p := true) hready hf hu (.inl rfl) hwf
    hR).bind (f := fun res => pure res.isSome)
    (P := fun ok b' => ∃ d', b' = b.setDev d' ∧ ok = true ∧ View.of d'.mem = b.view.setMetadata s
        (.valid (completed s 1 (verifiedRecord version counter reason)) none))
    fun res b' _ ⟨d', hb', hres, hview⟩ => .pure ⟨d', hb', hres, hview⟩
  unfold installVerified
  rw [Runs.bind_flash]
  rw [show load s b.mem = l from hl] at hspec ⊢
  rcases hcase with rfl | rfl <;> exact hspec

theorem runs_initializeStore (hready : b.ram.flash.ready = true) (hf : b.dev.Faultless)
    (hu : (b.view.metadata s).Unset) (hallowed : r.state = BootImageState.confirmed.code)
    (hwf : WellFormed r)
    (hR : ∀ g g', g.Unset → Register.Step (completed s 1 r) g g' →
      R (b.view.setMetadata s g) (b.view.setMetadata s g')) :
    Runs R (initializeStore s r)
      (fun res b' => ∃ d', b' = b.setDev d' ∧ res.isSome = true ∧
        View.of d'.mem = b.view.setMetadata s (.valid (completed s 1 r) none)) b := by
  have hstatus : status (load s b.mem) ≠ .valid := by
    obtain ⟨l, rfl, -, hne⟩ := unset_iff hu
    exact hne
  unfold initializeStore
  rw [Runs.bind_flash]
  dsimp only
  rw [if_neg hstatus]
  exact runs_writeRecord_first hready hf hu (.inr hallowed) hwf hR

end BootMetadata
