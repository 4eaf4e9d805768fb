import BootloaderV2.Commits

/-!
# Current records and images

The durable state without the copies that are not current.  `Lift S` lifts a relation between such
states to commands: a command either leaves the current records and images alone, or it is the one
that completes an `S`-step.
-/

open BootConfig NorFlash CrashM TwoCopy

structure Durable where
  journal : Register.Current BootUpdateJournal
  metadata : Slot → Register.Current BootSlotMetadata
  image : Nat → Byte

namespace Durable

def setJournal (d : Durable) (j : BootUpdateJournal) : Durable := { d with journal := .record j }

def setMetadata (d : Durable) (s : Slot) (r : BootSlotMetadata) : Durable :=
  { d with metadata := Function.update d.metadata s (.record r) }

def setImage (d : Durable) (image : Nat → Byte) : Durable := { d with image := image }

section

variable {d : Durable} {j : BootUpdateJournal} {s t : Slot} {r : BootSlotMetadata}
  {img : Nat → Byte}

@[simp] theorem setJournal_journal : (d.setJournal j).journal = .record j := rfl
@[simp] theorem setJournal_metadata : (d.setJournal j).metadata = d.metadata := rfl
@[simp] theorem setJournal_image : (d.setJournal j).image = d.image := rfl
@[simp] theorem setMetadata_journal : (d.setMetadata s r).journal = d.journal := rfl
@[simp] theorem setMetadata_image : (d.setMetadata s r).image = d.image := rfl

@[simp] theorem setMetadata_self : (d.setMetadata s r).metadata s = .record r :=
  Function.update_self ..

@[simp] theorem setMetadata_of_ne (h : t ≠ s) : (d.setMetadata s r).metadata t = d.metadata t :=
  Function.update_of_ne h ..

@[simp] theorem setImage_journal : (d.setImage img).journal = d.journal := rfl
@[simp] theorem setImage_metadata : (d.setImage img).metadata = d.metadata := rfl
@[simp] theorem setImage_image : (d.setImage img).image = img := rfl

end

end Durable

namespace View

def durable (v : View) : Durable :=
  ⟨v.journal.current, fun s => (v.metadata s).current, v.image⟩

variable {v : View} {s : Slot} {j : BootUpdateJournal} {r : BootSlotMetadata}

@[simp] theorem durable_journal : v.durable.journal = v.journal.current := rfl

@[simp] theorem durable_metadata : v.durable.metadata s = (v.metadata s).current := rfl

@[simp] theorem durable_image : v.durable.image = v.image := rfl

theorem journal_iff : v.durable.journal = .record j ↔ v.Journal j := Register.current_eq_record

theorem metadata_iff : v.durable.metadata s = .record r ↔ v.Metadata s r :=
  Register.current_eq_record

theorem durable_setMetadata {g : Register BootSlotMetadata} (h : g.current = .record r) :
    (v.setMetadata s g).durable = v.durable.setMetadata s r := by
  simp only [durable, setMetadata, Durable.setMetadata, Durable.mk.injEq, true_and, and_true]
  funext t
  by_cases ht : t = s
  · rw [ht, Function.update_self, Function.update_self, h]
  · rw [Function.update_of_ne ht, Function.update_of_ne ht]

theorem durable_setMetadata_same {g : Register BootSlotMetadata}
    (h : g.current = (v.metadata s).current) : (v.setMetadata s g).durable = v.durable := by
  simp only [durable, setMetadata, Durable.mk.injEq, true_and, and_true]
  funext t
  by_cases ht : t = s
  · rw [ht, Function.update_self, h]
  · rw [Function.update_of_ne ht]

end View

def Board.durable (b : Board) : Durable := b.view.durable

/-- A command as part of an `S`-step, which it completes or only leads up to. -/
inductive Lift (S : Durable → Durable → Prop) : View → View → Prop where
  | quiet {v v' : View} (hs : ∃ d', S v.durable d') (hj : Register.Quiet v.journal v'.journal)
    (hm : ∀ s, Register.Quiet (v.metadata s) (v'.metadata s)) (hi : v'.image = v.image) : Lift S v v'
  | journal {v : View} {g : Register BootUpdateJournal} {next : BootUpdateJournal}
    (hs : S v.durable (v.durable.setJournal next)) (hf : Register.Fresh next v.journal g) :
    Lift S v { v with journal := g }
  | metadata {v : View} {s : Slot} {g : Register BootSlotMetadata} {next : BootSlotMetadata}
    (hs : S v.durable (v.durable.setMetadata s next))
    (hf : Register.Fresh next (v.metadata s) g) : Lift S v (v.setMetadata s g)
  | image {v : View} {img : Nat → Byte} (hs : S v.durable (v.durable.setImage img)) :
    Lift S v { v with image := img }

namespace Lift

variable {S S' : Durable → Durable → Prop} {v v' : View} {s : Slot}

/-- A command leaves the current records and images alone or completes a step. -/
theorem durable (h : Lift S v v') : v'.durable = v.durable ∨ S v.durable v'.durable := by
  cases h with
  | quiet _ hj hm hi =>
    left
    simp only [View.durable, hj.current, fun s => (hm s).current, hi]
  | @journal g next hs hf =>
    right
    have : ({ v with journal := g } : View).durable = v.durable.setJournal next := by
      simp only [View.durable, Durable.setJournal, hf.current]
    rwa [this]
  | metadata hs hf =>
    right
    rwa [View.durable_setMetadata hf.current]
  | image hs => exact .inr hs

/-- Every command is issued for the sake of a step. -/
theorem exists_step (h : Lift S v v') : ∃ d', S v.durable d' := by
  cases h with
  | quiet hs _ _ _ => exact hs
  | journal hs _ => exact ⟨_, hs⟩
  | metadata hs _ => exact ⟨_, hs⟩
  | image hs => exact ⟨_, hs⟩

theorem mono (hS : ∀ d d', S d d' → S' d d') (h : Lift S v v') : Lift S' v v' := by
  cases h with
  | quiet hs hj hm hi =>
    obtain ⟨d', hs⟩ := hs
    exact .quiet ⟨d', hS _ _ hs⟩ hj hm hi
  | journal hs hf => exact .journal (hS _ _ hs) hf
  | metadata hs hf => exact .metadata (hS _ _ hs) hf
  | image hs => exact .image (hS _ _ hs)

theorem of_journal {j next : BootUpdateJournal} {o : Option BootUpdateJournal}
    {g : Register BootUpdateJournal}
    (hS : S (v.durable.setJournal j) (v.durable.setJournal next))
    (h : Register.Step next (.valid j o) g) :
    Lift S { v with journal := .valid j o } { v with journal := g } := by
  rcases h.quiet_or_fresh with hq | hf
  · exact .quiet ⟨_, hS⟩ hq (fun _ => .same _) rfl
  · exact .journal (v := { v with journal := .valid j o }) hS hf

theorem of_journal_first {next : BootUpdateJournal} {g g' : Register BootUpdateJournal}
    (hu : g.Unset) (hS : S { v.durable with journal := .unset } (v.durable.setJournal next))
    (h : Register.Step next g g') : Lift S { v with journal := g } { v with journal := g' } := by
  have hd : ({ v with journal := g } : View).durable = { v.durable with journal := .unset } := by
    simp only [View.durable, Register.current_eq_unset.2 hu]
  rcases h.quiet_or_fresh with hq | hf
  · exact .quiet ⟨_, hd ▸ hS⟩ hq (fun _ => .same _) rfl
  · refine .journal (v := { v with journal := g }) ?_ hf
    rw [hd]
    exact hS

theorem of_metadata {next : BootSlotMetadata} {g g' : Register BootSlotMetadata}
    (hg : g.current = (v.metadata s).current) (hS : S v.durable (v.durable.setMetadata s next))
    (h : Register.Step next g g') : Lift S (v.setMetadata s g) (v.setMetadata s g') := by
  have hd := View.durable_setMetadata_same hg
  rcases h.quiet_or_fresh with hq | hf
  · refine .quiet ⟨_, hd ▸ hS⟩ (.same _) (fun t => ?_) rfl
    by_cases ht : t = s
    · subst ht
      rwa [View.setMetadata_self, View.setMetadata_self]
    · rw [View.setMetadata_other ht, View.setMetadata_other ht]
      exact .same _
  · have hS' : S (v.setMetadata s g).durable ((v.setMetadata s g).durable.setMetadata s next) := by
      rw [hd]
      exact hS
    have := Lift.metadata (g := g') hS' (by rwa [View.setMetadata_self])
    rwa [View.setMetadata_setMetadata] at this

end Lift

/-- Where no step is possible, no command is issued. -/
theorem Trail.eq_of_stuck {S : Durable → Durable → Prop} {d d' : Device Note}
    (h : Trail (Lift S) d d') (hs : ∀ e, ¬ S (View.of d.mem).durable e) : d' = d := by
  induction h with
  | refl => rfl
  | command c n _ hR ih =>
    rw [ih] at hR
    obtain ⟨e, he⟩ := hR.exists_step
    exact absurd he (hs e)

namespace Runs

variable {α : Type} {S S' : Durable → Durable → Prop} {m : BootM α} {Q : α → Board → Prop}
  {b : Board}

theorem lift_mono (hS : ∀ d d', S d d' → S' d d') (h : Runs (Lift S) m Q b) :
    Runs (Lift S') m Q b :=
  h.weaken fun _ _ => Lift.mono hS

end Runs

/-- What a program changes: variables and durable state, but neither the retained words nor the
    environment. -/
structure Changed (b : Board) (ram : Ram) (view : View) (b' : Board) : Prop where
  ram : b'.ram = ram
  view : b'.view = view
  retained : b'.retained = b.retained
  hw : b'.hw = b.hw

namespace Changed

variable {b b' : Board} {ram : Ram} {view : View}

theorem setDev {d : Device Note} (h : View.of d.mem = view) : Changed b b.ram view (b.setDev d) :=
  ⟨rfl, h, rfl, rfl⟩

theorem durable (h : Changed b ram view b') : b'.durable = view.durable := congrArg _ h.view

end Changed

section

variable {S : Durable → Durable → Prop} {b : Board}

/-- A commit of the journal that completes an `S`-step. -/
theorem BootJournal.lifts_commit {j r : BootUpdateJournal} {o : Option BootUpdateJournal}
    (hready : b.ram.flash.ready = true) (hf : b.dev.Faultless)
    (hv : b.view.journal = .valid j o) (hwf : BootJournal.WellFormed r)
    (hS : S b.durable (b.durable.setJournal (BootJournal.completed (j.sequence + 1) r))) :
    Runs (Lift S) (BootJournal.commit r)
      (fun res b' => res = some (BootJournal.completed (j.sequence + 1) r) ∧
        Changed b b.ram { b.view with
          journal := .valid (BootJournal.completed (j.sequence + 1) r) (some j) } b') b := by
  have hd : b.durable = b.view.durable.setJournal j := by
    simp only [Board.durable, View.durable, Durable.setJournal, hv, Register.current]
  refine (BootJournal.runs_commit hready hf hv hwf fun o' g hs => Lift.of_journal ?_ hs).mono ?_
  · rw [← hd]
    exact hS
  · rintro res b' - ⟨d', rfl, hres, hview⟩
    exact ⟨hres, .setDev hview⟩

theorem BootJournal.lifts_initializeStore {r : BootUpdateJournal}
    (hready : b.ram.flash.ready = true) (hf : b.dev.Faultless) (hu : b.view.journal.Unset)
    (hwf : BootJournal.WellFormed r)
    (hS : S b.durable (b.durable.setJournal (BootJournal.completed 1 r))) :
    Runs (Lift S) (BootJournal.initializeStore r)
      (fun res b' => res = some (BootJournal.completed 1 r) ∧
        Changed b b.ram { b.view with
          journal := .valid (BootJournal.completed 1 r) none } b') b := by
  have hd : b.durable = { b.view.durable with journal := .unset } := by
    simp only [Board.durable, View.durable, Register.current_eq_unset.2 hu]
  refine (BootJournal.runs_initializeStore hready hf hu hwf
    fun g g' hg hs => Lift.of_journal_first hg ?_ hs).mono ?_
  · rw [← hd]
    exact hS
  · rintro res b' - ⟨d', rfl, hres, hview⟩
    exact ⟨hres, .setDev hview⟩

/-- A metadata call that completes an `S`-step. -/
theorem BootMetadata.lifts_call {s : Slot} {old next : BootSlotMetadata}
    {o : Option BootSlotMetadata} (c : BootMetadata.Call) (hready : b.ram.flash.ready = true)
    (hf : b.dev.Faultless) (hv : b.view.metadata s = .valid old o)
    (hreq : c.request old = .write next) (hwf : BootMetadata.WellFormed next)
    (hS : S b.durable
      (b.durable.setMetadata s (BootMetadata.completed s (old.sequence + 1) next))) :
    Runs (Lift S) (c.run s)
      (fun ok b' => ok = true ∧ Changed b b.ram (b.view.setMetadata s
        (.valid (BootMetadata.completed s (old.sequence + 1) next) (some old))) b') b := by
  refine (BootMetadata.runs_call c hready hf hv hreq hwf
    fun o' g hs => Lift.of_metadata ?_ hS hs).mono ?_
  · rw [hv]
    rfl
  · rintro ok b' - ⟨d', rfl, hok, hview⟩
    exact ⟨hok, .setDev hview⟩

/-- A commit of the metadata that completes an `S`-step. -/
theorem BootMetadata.lifts_commit {s : Slot} {old next : BootSlotMetadata}
    {o : Option BootSlotMetadata} (hready : b.ram.flash.ready = true) (hf : b.dev.Faultless)
    (hv : b.view.metadata s = .valid old o)
    (hallowed : BootMetadata.transitionAllowed old next = true)
    (hwf : BootMetadata.WellFormed next)
    (hS : S b.durable
      (b.durable.setMetadata s (BootMetadata.completed s (old.sequence + 1) next))) :
    Runs (Lift S) (BootMetadata.commit s next)
      (fun res b' => res = some (BootMetadata.completed s (old.sequence + 1) next) ∧
        Changed b b.ram (b.view.setMetadata s
          (.valid (BootMetadata.completed s (old.sequence + 1) next) (some old))) b') b := by
  refine (BootMetadata.runs_commit hready hf hv hallowed hwf
    fun o' g hs => Lift.of_metadata ?_ hS hs).mono ?_
  · rw [hv]
    rfl
  · rintro res b' - ⟨d', rfl, hres, hview⟩
    exact ⟨hres, .setDev hview⟩

theorem BootMetadata.lifts_installVerified_first {s : Slot} {version counter reason : Word}
    (hready : b.ram.flash.ready = true) (hf : b.dev.Faultless) (hu : (b.view.metadata s).Unset)
    (hwf : BootMetadata.WellFormed (BootMetadata.verifiedRecord version counter reason))
    (hS : S b.durable (b.durable.setMetadata s (BootMetadata.completed s 1
      (BootMetadata.verifiedRecord version counter reason)))) :
    Runs (Lift S) (BootMetadata.installVerified s version counter reason)
      (fun ok b' => ok = true ∧ Changed b b.ram (b.view.setMetadata s
        (.valid (BootMetadata.completed s 1
          (BootMetadata.verifiedRecord version counter reason)) none)) b') b := by
  refine (BootMetadata.runs_installVerified_first hready hf hu hwf
    fun g g' hg hs => Lift.of_metadata ?_ hS hs).mono ?_
  · rw [Register.current_eq_unset.2 hg, Register.current_eq_unset.2 hu]
  · rintro ok b' - ⟨d', rfl, hok, hview⟩
    exact ⟨hok, .setDev hview⟩

theorem BootMetadata.lifts_initializeStore {s : Slot} {r : BootSlotMetadata}
    (hready : b.ram.flash.ready = true) (hf : b.dev.Faultless) (hu : (b.view.metadata s).Unset)
    (hstate : r.state = BootImageState.confirmed.code) (hwf : BootMetadata.WellFormed r)
    (hS : S b.durable (b.durable.setMetadata s (BootMetadata.completed s 1 r))) :
    Runs (Lift S) (BootMetadata.initializeStore s r)
      (fun res b' => res.isSome = true ∧ Changed b b.ram (b.view.setMetadata s
        (.valid (BootMetadata.completed s 1 r) none)) b') b := by
  refine (BootMetadata.runs_initializeStore hready hf hu hstate hwf
    fun g g' hg hs => Lift.of_metadata ?_ hS hs).mono ?_
  · rw [Register.current_eq_unset.2 hg, Register.current_eq_unset.2 hu]
  · rintro ok b' - ⟨d', rfl, hok, hview⟩
    exact ⟨hok, .setDev hview⟩

/-- `save` on a journal whose current record is mirrored. -/
theorem BootUpdate.lifts_save {r : BootUpdateJournal} {j : BootUpdateJournal}
    {o : Option BootUpdateJournal} (hready : b.ram.flash.ready = true) (hf : b.dev.Faultless)
    (hvalid : b.ram.update.journalValid = true) (hfault : b.ram.update.storageFault = false)
    (hv : b.view.journal = .valid j o) (hwf : BootJournal.WellFormed r)
    (hS : S b.durable (b.durable.setJournal (BootJournal.completed (j.sequence + 1) r))) :
    Runs (Lift S) (BootUpdate.save r)
      (fun ok b' => ok = true ∧ Changed b
        { b.ram with update := { b.ram.update with
          current := BootJournal.completed (j.sequence + 1) r } }
        { b.view with journal := .valid (BootJournal.completed (j.sequence + 1) r) (some j) } b')
      b := by
  unfold BootUpdate.save
  rw [Runs.bind_getRam]
  refine .ite (fun h => absurd h (by simp [hvalid, hfault])) fun _ => ?_
  refine (BootJournal.lifts_commit hready hf hv hwf hS).bind fun res b' _ h => ?_
  obtain ⟨rfl, hc⟩ := h
  dsimp only
  rw [Runs.bind_setUpdate]
  refine .pure ⟨rfl, ?_, hc.view, hc.retained, hc.hw⟩
  rw [hc.ram]

end
