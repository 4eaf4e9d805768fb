import BootloaderV2.ProgramOnce
import BootloaderV2.Requests

/-!
# The history of a device

Boots, turns of the server and resets, in any order, on a flash that never fails: from erased
records on, the durable state stays consistent, and a waiting server has a session.
-/

open BootConfig NorFlash CrashM TwoCopy

/-- No command of the turn reports a failure; the power may be cut. -/
def Turn.Sound (e : Turn) : Prop := ∀ n, Fate.fail n ∉ e.fates

/-- The power is not cut either. -/
structure Turn.Calm (e : Turn) : Prop where
  sound : e.Sound
  uncut : ∀ n, Fate.cut n ∉ e.fates

/-- A turn without a cut or a fault. -/
def Turn.quiet : Turn := ⟨[], .powerOn⟩

theorem Turn.calm_quiet : Turn.quiet.Calm := ⟨fun _ h => (by cases h), fun _ h => (by cases h)⟩

/-- The phases that a device goes through from erased records on.  A reset comes at any command: a
    command that is cut before its first byte leaves the flash as it was. -/
inductive Endures : Phase → Prop where
  | new {d : Device Note} (h : RecordsErased d.mem) : Endures (.reset d)
  | boot {d : Device Note} {b : Board} (e : Turn) (he : e.Sound) (r : RetainedRecord)
    (h : Endures (.reset d)) (hb : Activity.boot.run (e.restart r d) = .done true b) :
    Endures (.serving b)
  | interruptBoot {d : Device Note} (e : Turn) (he : e.Sound) (r : RetainedRecord)
    (h : Endures (.reset d)) : Endures (.reset (Activity.boot.run (e.restart r d)).state.dev)
  | serve {b b' : Board} (a : Activity) (e : Turn) (he : e.Sound) (h : Endures (.serving b))
    (ha : a ≠ .boot) (hb : a.run (e.on b) = .done true b') : Endures (.serving b')
  | interrupt {b : Board} (a : Activity) (e : Turn) (he : e.Sound) (h : Endures (.serving b))
    (ha : a ≠ .boot) : Endures (.reset (a.run (e.on b)).state.dev)

/-- Erased records are consistent with any images. -/
theorem RecordsErased.consistent {mem : Nat → Byte} (h : RecordsErased mem) :
    Consistent (View.of mem).durable := by
  have hjournal : (View.of mem).durable.journal = .unset :=
    Register.current_eq_unset.2 (.inl (BootJournal.recordFormat.load_empty_iff.1 h.journal))
  have hmeta : ∀ s, (View.of mem).durable.metadata s = .unset := fun s =>
    Register.current_eq_unset.2 (.inl ((BootMetadata.recordFormat s).load_empty_iff.1 (h.metadata s)))
  refine ⟨by rw [hjournal]; simp, fun s => by rw [hmeta]; simp, fun _ => hmeta, ?_, ?_⟩
  · intro j t hj
    exact absurd (hjournal.symm.trans hj) (by simp)
  · intro j t hj
    exact absurd (hjournal.symm.trans hj) (by simp)

/-! ## A boot and the server it starts -/

/-- The journal of a boot that has recovered. -/
def Resting (j : BootUpdateJournal) : Prop :=
  j.state = BootUpdateState.idle.code ∨ j.state = BootUpdateState.aborted.code

/-- One step of a boot. -/
def Boots (d d' : Durable) : Prop := Recovers d d' ∨ Launches Resting d d'

theorem Consistent.boots {d d' : Durable} (h : Consistent d) (hv : d.Valid) (hd : Boots d d') :
    Consistent d' :=
  hd.elim (h.recovers hv) (h.launches hv fun _ hj => hj)

namespace BootManager

variable {b b₁ b' : Board}

/-- After recovery the journal of a consistent state is at rest. -/
theorem Booted.recovered (h : Booted b b₁) (hc : Consistent b₁.durable) : Recovered b₁ := by
  obtain ⟨ok, hst⟩ := h.started
  exact .of_started h.ready h.mirror hst hc

theorem Booted.resting (h : Booted b b₁) (hc : Consistent b₁.durable) {j : BootUpdateJournal}
    (hj : b₁.view.Journal j) : Resting j := by
  rcases (h.recovered hc).update with ⟨hn, -⟩ | ⟨j', hm, hst⟩
  · exact absurd hj (hn.journal j)
  · obtain rfl := hm.journal.unique hj
    exact hst

/-- `BootManager_Run` on a consistent state. -/
theorem boots_run (hf : b.dev.Faultless) (hc : Consistent b.durable) :
    Runs (Lift Boots) run (fun exit b' => ∃ b₁, Trail (Lift Recovers) b.dev b₁.dev ∧ Booted b b₁ ∧
      Consistent b₁.durable ∧ Finished b₁ b' exit) b := by
  have hrecovers : ∀ {d : Device Note}, Trail (Lift Recovers) b.dev d →
      Consistent (View.of d.mem).durable :=
    fun ht => ht.durable (fun _ _ hv hs hc => hc.recovers hv hs) hc
  refine (lifts_run (P := Resting) hf hc.unhindered fun b₁ ht hb₁ j hj =>
    hb₁.resting (hrecovers ht) hj).mono ?_
  rintro exit b' - ⟨b₁, ht, hb₁, -, hfin⟩
  exact ⟨b₁, ht, hb₁, hrecovers ht, hfin⟩

end BootManager

/-- A boot that ends in the server leaves a session. -/
theorem Activity.runs_boot {b : Board} (hf : b.dev.Faultless) (hc : Consistent b.durable) :
    Runs (Lift Boots) Activity.boot.run (fun ok b' => ok = true → Hosted b') b := by
  unfold Activity.run
  apply (BootManager.boots_run hf hc).bind
  intro exit b' _ ⟨b₁, _, hb₁, hc₁, hfin⟩
  cases exit with
  | reset => exact .pure fun h => by cases h
  | jumped s => exact .pure fun h => by cases h
  | error => exact .pure fun h => by cases h
  | programming =>
    cases hfin with
    | programming b₂ answered alike active version _ =>
      have hrec : Recovered b₂ := (hb₁.recovered hc₁).answered answered
      unfold BootUds.init BootSecurity.init BootProgramming.init
      dsimp only
      rw [Runs.assoc, Runs.bind_setUds, Runs.assoc, Runs.bind_setSecurity, Runs.assoc,
        Runs.bind_getRam, Runs.bind_setProgramming]
      rw [active, version]
      exact .pure fun _ => ⟨_, @Session.of_recovered b₂ _ _ (BootManager.softwareRequested b₁)
        _ _ _ hrec alike rfl⟩

/-- A turn of the server. -/
theorem Activity.runs_serve {a : Activity} {b : Board} {act : SlotId} (ha : a ≠ .boot)
    (h : Session act b) (hf : b.dev.Faultless) (hc : Consistent b.durable) :
    Runs (Lift (Serves act)) a.run (fun _ b' => BootUds.GoesOn act b b') b := by
  cases a with
  | boot => exact absurd rfl ha
  | request q => exact (BootUds.session_processRequest h hf hc).bind fun _ _ _ hg => .pure hg
  | tick => exact (BootUds.session_mainFunction h hf).bind fun _ _ _ hs => .pure (.inl hs)

/-! ## Every phase -/

namespace Runs

variable {α : Type} {R : View → View → Prop} {m : BootM α} {Q : α → Board → Prop} {b b' : Board}

/-- The commands of a run, however it ends. -/
theorem state_trail (h : Runs R m Q b) : Trail R b.dev (m b).state.dev :=
  wp_state (P := fun b' => Trail R b.dev b'.dev) (wp_mono h (fun _ _ h => h.1) fun _ h => h.1)

theorem of_done {a : α} (h : Runs R m Q b) (hm : m b = .done a b') :
    Trail R b.dev b'.dev ∧ Q a b' := by
  unfold Runs wp at h
  rw [hm] at h
  exact h

/-- Without a cut the run returns. -/
theorem exists_done (h : Runs R m Q b) (hu : b.dev.Uncut) :
    ∃ a b', m b = .done a b' ∧ Trail R b.dev b'.dev ∧ Q a b' :=
  wp_done (wp_mono h (fun _ _ h => h) fun _ h => h.2 hu)

end Runs

theorem Turn.Sound.restart {e : Turn} (h : e.Sound) (r : RetainedRecord) (d : Device Note) :
    (e.restart r d).dev.Faultless := h

theorem Turn.Sound.on {e : Turn} (h : e.Sound) (b : Board) : (e.on b).dev.Faultless := h

theorem Session.on {act : SlotId} {b : Board} (h : Session act b) (e : Turn) :
    Session act (e.on b) where
  ready := h.ready
  lifecycle := fun s => ⟨(h.lifecycle s).status, (h.lifecycle s).record⟩
  update := h.update.imp (fun hn => ⟨hn.journal, hn.valid, hn.fault⟩) fun ⟨j, hm⟩ =>
    ⟨j, hm.ready, hm.valid, hm.fault, hm.current, hm.journal⟩
  active := h.active
  target := h.target
  faulted := h.faulted
  linked := h.linked
  targeted := h.targeted
  version := h.version
  versioned := h.versioned
  downloading := h.downloading
  staged := h.staged

/-- What is known of a phase: the durable state is consistent, and a waiting server has a session. -/
def Phase.Sound : Phase → Prop
  | .reset d => Consistent (View.of d.mem).durable
  | .serving b => Hosted b ∧ Consistent b.durable

theorem Trail.boots {d d' : Device Note} (h : Trail (Lift Boots) d d')
    (hc : Consistent (View.of d.mem).durable) : Consistent (View.of d'.mem).durable :=
  h.durable (fun _ _ hv hs hc => hc.boots hv hs) hc

theorem Endures.sound {p : Phase} (h : Endures p) : p.Sound := by
  induction h with
  | new h => exact h.consistent
  | boot e he r _ hb ih =>
    obtain ⟨htrail, hhosted⟩ := (Activity.runs_boot (he.restart r _) ih).of_done hb
    exact ⟨hhosted rfl, htrail.boots ih⟩
  | interruptBoot e he r _ ih => exact (Activity.runs_boot (he.restart r _) ih).state_trail.boots ih
  | serve a e he _ ha hb ih =>
    obtain ⟨⟨act, hs⟩, hc⟩ := ih
    obtain ⟨htrail, hg⟩ := (Activity.runs_serve ha (hs.on e) (he.on _) hc).of_done hb
    exact ⟨hg.elim (fun hs => ⟨act, hs⟩) fun h => h.2, htrail.consistent hc⟩
  | interrupt a e he _ ha ih =>
    obtain ⟨⟨act, hs⟩, hc⟩ := ih
    exact (Activity.runs_serve ha (hs.on e) (he.on _) hc).state_trail.consistent hc

/-! ## The server of a history -/

theorem Activity.exists_done {α : Type} {m : BootM α} {b b' : Board}
    (h : (m >>= fun _ => pure true : BootM Bool) b = .done true b') : ∃ a, m b = .done a b' := by
  simp only [bind] at h
  cases hm : m b with
  | cut c =>
    rw [hm] at h
    cases h
  | done a c =>
    rw [hm] at h
    obtain ⟨-, rfl⟩ := Outcome.done.inj h
    exact ⟨a, rfl⟩

/-- A boot that comes back has ended in the server. -/
theorem Activity.boot_done {b b' : Board} (h : Activity.boot.run b = .done true b') :
    ∃ b₁, BootManager.run b = .done .programming b₁ ∧ BootUds.init b₁ = .done () b' := by
  unfold Activity.run at h
  simp only [bind] at h
  cases hrun : BootManager.run b with
  | cut c =>
    rw [hrun] at h
    cases h
  | done exit c =>
    rw [hrun] at h
    cases exit with
    | programming =>
      obtain ⟨u, hu⟩ := exists_done (m := BootUds.init) h
      exact ⟨c, rfl, hu⟩
    | reset | jumped | error => cases h

/-- A server has a transcript since it was started. -/
theorem Endures.exists_reaches {b : Board} (h : Endures (.serving b)) :
    ∃ b₀ t, Reaches b₀ t b := by
  generalize hp : Phase.serving b = p at h
  induction h generalizing b with
  | new h => cases hp
  | interruptBoot e he r _ ih => cases hp
  | interrupt a e he _ ha ih => cases hp
  | boot e he r _ hb ih =>
    cases hp
    obtain ⟨b₁, -, hinit⟩ := Activity.boot_done hb
    exact ⟨b₁, [], .start hinit⟩
  | serve a e he _ ha hb ih =>
    cases hp
    obtain ⟨b₀, t, hreaches⟩ := ih rfl
    cases a with
    | boot => exact absurd rfl ha
    | request q =>
      obtain ⟨r, hr⟩ := Activity.exists_done hb
      exact ⟨b₀, _, .request e hreaches hr⟩
    | tick =>
      obtain ⟨u, hu⟩ := Activity.exists_done hb
      exact ⟨b₀, t, .tick e hreaches hu⟩
