import BootloaderV2.Reports
import BootloaderV2.Unlocking

/-!
# From the session to the verification

The flasher before the erasure, against the server: the session, the key, the reports and the slots.
Nothing that it asks changes what an update rests on, so a server that would start one goes through
all of it.
-/

open RaiseM Buffer

/-! ## What a server reports -/

open CrashM in
theorem Activity.reporting_boot {b : Board} :
    CrashM.Ensures Activity.boot.run (fun _ b' => Reporting b') b := by
  have hrun : CrashM.Ensures BootManager.run (fun _ b' => Reporting b') b := by
    unfold CrashM.Ensures wp
    split
    · rename_i hdone
      exact BootManager.reporting_of_run hdone
    · trivial
  unfold Activity.run
  refine hrun.bind fun exit b₁ h₁ => ?_
  cases exit with
  | reset => exact .pure h₁
  | jumped s => exact .pure h₁
  | error => exact .pure h₁
  | programming =>
    exact reports_sequential.bind (BootUds.answered_init reports_served.answered)
      (fun _ => reports_sequential.pure _) b₁ h₁

theorem Activity.reports_run {a : Activity} (ha : a ≠ .boot) : Reports a.run := by
  cases a with
  | boot => exact absurd rfl ha
  | request q =>
    exact reports_sequential.bind (BootUds.answered_processRequest reports_served.answered) fun _ =>
      reports_sequential.pure _
  | tick =>
    exact reports_sequential.bind (BootUds.answered_mainFunction reports_served.answered) fun _ =>
      reports_sequential.pure _

/-- The reports of every server can be read. -/
theorem Endures.reporting {b : Board} (h : Endures (.serving b)) : Reporting b := by
  generalize hp : Phase.serving b = p at h
  -- a boot that ends in the server has set the reports, and each request keeps them readable
  induction h generalizing b with
  | new h => cases hp
  | boot e he r _ hb ih =>
    cases hp
    exact Activity.reporting_boot.of_done hb
  | interruptBoot e he r _ ih => cases hp
  | serve a e he _ ha hb ih =>
    cases hp
    have hon := ih rfl
    exact (Activity.reports_run ha (e.on _) ⟨hon.journal, hon.lifecycle⟩).of_done hb
  | interrupt a e he _ ha ih => cases hp

/-- Whether an update may start is read off the records, so reading them again changes nothing. -/
theorem BootLifecycle.canStartUpdate_congr {b b' : Board} (h : Mirror b) (h' : Mirror b')
    (hview : b'.view = b.view)
    (hfault : b'.ram.lifecycle.storageFault = b.ram.lifecycle.storageFault)
    (active target : SlotId) : canStartUpdate b'.ram.lifecycle active target =
      canStartUpdate b.ram.lifecycle active target := by
  have hvalid (s : Slot) : b'.ram.lifecycle.metadataStatus s = .valid ↔
      b.ram.lifecycle.metadataStatus s = .valid := by
    rw [(h' s).status_valid, (h s).status_valid, hview]
  have hstatus (s : Slot) : (b'.ram.lifecycle.metadataStatus s == .valid) =
      (b.ram.lifecycle.metadataStatus s == .valid) := by
    rw [Bool.eq_iff_iff, beq_iff_eq, beq_iff_eq]
    exact hvalid s
  unfold canStartUpdate
  rw [hfault]
  cases active with
  | none =>
    dsimp only
    unfold bne
    rw [hstatus, hstatus]
  | some s =>
    dsimp only
    rw [hstatus]
    by_cases hs : b.ram.lifecycle.metadataStatus s = .valid
    · obtain ⟨r, hr⟩ := (h s).status_valid.1 hs
      have hr' : b'.view.Metadata s r := by rwa [hview]
      rw [(h s).record r hr, (h' s).record r hr']
    · simp only [beq_eq_false_iff_ne.2 hs, Bool.false_and]

open BootUpdateState (preparing pendingActivation)

namespace BootUds

/-- Without an update under way there is nothing to abort in the journal. -/
theorem abortDownload_eq {b : Board} (h : ¬ (b.ram.update.journalValid = true ∧
    preparing.code ≤ b.ram.update.current.state ∧
    b.ram.update.current.state < pendingActivation.code)) :
    abortDownload b = .done () { b with ram := { b.ram with
      programming := BootProgramming.aborted b.ram.programming
      uds := { b.ram.uds with transferTimeout := 0 } } } := by
  show (if b.ram.update.journalValid = true ∧ preparing.code ≤ b.ram.update.current.state ∧
      b.ram.update.current.state < pendingActivation.code then _ else _ : BootM Unit) b = _
  rw [if_neg h]
  rfl

end BootUds

namespace Gateway

open BootUds (Offers processRequest accessed write32)

variable {visits : Nat → Visit} {pace : Rat} {s : Tester Bench} {t : Slot} {act : SlotId}
  {version : Word} {b b' : Board} {q r : List Byte}

/-- A server that would start an update of `t` once it is unlocked. -/
structure Stands (t : Slot) (act : SlotId) (version : Word) (b : Board) : Prop where
  serving : Endures (.serving b)
  idle : b.ram.programming.downloadActive = false
  target : b.ram.programming.targetSlot = some t
  active : b.ram.programming.activeSlot = act
  version : b.ram.programming.activeVersion = version
  lifecycle : BootLifecycle.canStartUpdate b.ram.lifecycle act (some t) = true
  allowed : BootUpdate.beginAllowed b.ram.update act (some t) BootConfig.slotSize = true

namespace Stands

theorem opens (h : Stands t act version b) (hs : b.ram.uds.session = 2) : Opens t b :=
  ⟨h.serving, hs, h.idle, h.target, h.active ▸ h.lifecycle, h.active ▸ h.allowed⟩

theorem alike (h : Stands t act version b) (ha : Alike b b') (hb : Endures (.serving b')) :
    Stands t act version b' where
  serving := hb
  idle := by rw [ha.downloadActive, h.idle]
  target := by rw [ha.targetSlot, h.target]
  active := by rw [ha.activeSlot, h.active]
  version := by rw [ha.activeVersion, h.version]
  lifecycle := by rw [ha.lifecycle, h.lifecycle]
  allowed := by rw [ha.update, h.allowed]

/-- The server before a request, and what the request comes to. -/
theorem visit {v : Visit} (h : Stands t act version b) (hv : v.Fair pace) : ∃ c : Board,
    c.ram = b.ram ∧ Stands t act version c ∧ ∀ r b', processRequest q c = .done (some r) b' →
      Bench.answer v q b = some (r, b') ∧ Endures (.serving b') := by
  obtain ⟨b₀, hticks, hram, h₀⟩ := ticks_idle h.serving h.idle hv.before
  -- the request finds the board that the last turn has left
  have hserving : Endures (.serving (v.turn.on b₀)) :=
    h₀.serve .tick v.turn hv.turn.calm.sound (by simp) (Activity.tick_done
      (BootUds.mainFunction_idle (b := v.turn.on b₀) (by
        show b₀.ram.programming.downloadActive = false
        rw [hram, h.idle])))
  have hram' : (v.turn.on b₀).ram = b.ram := hram
  refine ⟨v.turn.on b₀, hram', ⟨hserving, ?_, ?_, ?_, ?_, ?_, ?_⟩, fun r b' hrun => ⟨?_, ?_⟩⟩
  · rw [hram', h.idle]
  · rw [hram', h.target]
  · rw [hram', h.active]
  · rw [hram', h.version]
  · rw [hram', h.lifecycle]
  · rw [hram', h.allowed]
  · unfold Bench.answer
    rw [hticks]
    dsimp only
    rw [hrun]
  · exact h₀.serve (.request q) v.turn hv.turn.calm.sound (by simp) (Activity.request_done hrun)

/-- What may begin is not under way. -/
theorem not_running (h : Stands t act version b) : ¬ (b.ram.update.journalValid = true ∧
    BootUpdateState.preparing.code ≤ b.ram.update.current.state ∧
    b.ram.update.current.state < BootUpdateState.pendingActivation.code) := by
  -- the journal may go to `preparing`, and never from a state between the two bounds
  have hallowed := h.allowed
  simp only [BootUpdate.beginAllowed, Bool.and_eq_true] at hallowed
  have htransition := hallowed.1.1.1.1.1.2
  rintro ⟨-, hlow, hhigh⟩
  unfold BootUpdate.transitionAllowed at htransition
  rw [if_neg fun hno => absurd hno.2 (by decide), if_pos rfl, decide_eq_true_eq] at htransition
  rcases htransition with h0 | h0 | h0
  · rw [h0] at hlow
    exact absurd hlow (by decide)
  · rw [h0] at hhigh
    exact absurd hhigh (by decide)
  · rw [h0] at hhigh
    exact absurd hhigh (by decide)

theorem canContinue (h : Stands t act version b) :
    b.ram.update.journalValid = true ∧ b.ram.update.storageFault = false := by
  have hallowed := h.allowed
  simp only [BootUpdate.beginAllowed, BootUpdate.canContinue, Bool.and_eq_true,
    Bool.not_eq_true'] at hallowed
  exact hallowed.1.1.1.1.1.1

end Stands

end Gateway

namespace BootUds

/-- The board once it is asked for the programming session, before the download is given up. -/
def inSession (b : Board) : Board :=
  { b with ram := { b.ram with
      uds := { b.ram.uds with session := 2 }
      security := { b.ram.security with seed := 0, seedIssued := false, unlocked := false } } }

/-- The board in the programming session. -/
def sessioned (b : Board) : Board :=
  { b with ram := { b.ram with
      uds := { b.ram.uds with session := 2, transferTimeout := 0 }
      security := { b.ram.security with seed := 0, seedIssued := false, unlocked := false }
      programming := { BootProgramming.aborted b.ram.programming with
        sessionActive := true, securityUnlocked := false } } }

theorem processRequest_session {b : Board} (h : ¬ (b.ram.update.journalValid = true ∧
    preparing.code ≤ b.ram.update.current.state ∧
    b.ram.update.current.state < pendingActivation.code)) :
    processRequest [0x10, 2] b = .done (some [0x50, 2, 0, 50, 1, 0xF4]) (sessioned b) := by
  have habort := abortDownload_eq (b := inSession (refreshed b)) h
  have hcontrol : sessionControl [0x10, 2] (refreshed b) =
      .done (.ok [0x50, 2, 0, 50, 1, 0xF4]) (sessioned b) := by
    show (abortDownload >>= fun _ => (do
      BootProgramming.setAccess true false
      return .ok [0x50, 2, 0, 50, 1, 0xF4] : BootM Answer)) (inSession (refreshed b)) = _
    simp only [bind, habort]
    rfl
  rw [processRequest_eq (by decide)]
  show finish 0x10 (sessionControl [0x10, 2] (refreshed b)) = _
  rw [hcontrol]
  rfl

end BootUds

namespace Gateway

open BootUds (Offers Updated processRequest accessed write32)

variable {visits : Nat → Visit} {pace : Rat} {s : Tester Bench} {t : Slot} {act : SlotId}
  {version : Word} {b b' : Board} {q r : List Byte}

/-! ## What the flasher asks -/

/-- A server that has been unlocked. -/
structure Grants (t : Slot) (act : SlotId) (version : Word) (b : Board) : Prop
    extends Stands t act version b where
  authorised : Authorised b

theorem Grants.accessed (h : Grants t act version b) (hb : Endures (.serving (accessed b))) :
    Grants t act version (BootUds.accessed b) :=
  ⟨⟨hb, h.idle, h.target, h.active, h.version, h.lifecycle, h.allowed⟩, h.authorised⟩

theorem Grants.offers (h : Grants t act version b) : Offers t b :=
  ⟨h.authorised, h.idle, h.target, h.active.symm ▸ h.lifecycle, h.active.symm ▸ h.allowed⟩

variable (hpace : 0 ≤ pace) (hv : ∀ n, (visits n).Fair pace)

include hpace hv

namespace UdsClient

theorem returns_diagnosticSession (hshort : pace ≤ 51 / 10)
    (h : Facing pace (Stands t act version) s) :
    Returns (diagnosticSession (Bench.transport visits pace) 2) (fun _ s' =>
      Facing pace (fun b => Stands t act version b ∧ b.ram.uds.session = 2) s') s := by
  obtain ⟨c, -, hc, hanswer⟩ := h.board.visit (q := [0x10, 2]) (hv s.link.asked)
  obtain ⟨hrun, hserving⟩ := hanswer _ _ (BootUds.processRequest_session hc.not_running)
  have hend : Stands t act version (BootUds.sessioned c) :=
    ⟨hserving, rfl, hc.target, hc.active, hc.version, hc.lifecycle, hc.allowed⟩
  unfold diagnosticSession
  refine (returns_answer hpace h.waits (hv s.link.asked) hrun rfl rfl).bind ?_
  rintro _ s' ⟨rfl, hs', -⟩
  refine .ite_neg (by decide) (.ite_neg (by decide) (.bind_modify (.pure ⟨?_, ?_⟩)))
  · show Stands t act version s'.link.board ∧ s'.link.board.ram.uds.session = 2
    rw [hs']
    exact ⟨hend, rfl⟩
  · -- the client takes its waiting time from the response
    have hseconds : pace ≤ min (((5000 : Nat) : Rat) / 1000 + 1 / 10) 10 :=
      le_min (by push_cast; linarith) (by linarith)
    exact hseconds

/-- A DID that is read off the variables. -/
theorem returns_readDid {did : Nat} {hi lo : Byte} {P : List Byte → Prop}
    (hq : didRequest did = [0x22, hi, lo]) (hdid : fromBytes [hi, lo] = did)
    (h : Facing pace (Grants t act version) s)
    (hrun : ∀ c, Grants t act version c → ∃ data c', P data ∧ processRequest [0x22, hi, lo] c =
      .done (some (0x62 :: hi :: lo :: data)) c' ∧
        (Endures (.serving c') → Grants t act version c')) :
    Returns (readDid (Bench.transport visits pace) did) (fun a s' => P a ∧
      Facing pace (Grants t act version) s') s := by
  obtain ⟨c, hram, hc, hanswer⟩ := h.board.visit (q := [0x22, hi, lo]) (hv s.link.asked)
  have hauthorised : Authorised c := by
    unfold Authorised
    rw [hram]
    exact h.board.authorised
  obtain ⟨data, c', hp, hprocess, hgrants⟩ := hrun c ⟨hc, hauthorised⟩
  obtain ⟨hbench, hserving⟩ := hanswer _ _ hprocess
  unfold readDid
  rw [hq]
  refine (returns_answer hpace h.waits (hv s.link.asked) hbench rfl rfl).bind ?_
  rintro _ s' ⟨rfl, hs', hwait⟩
  refine .ite_neg ?_ (.pure ⟨hp, ?_, hwait⟩)
  · rintro (hlen | hecho)
    · simp only [List.length_cons] at hlen
      omega
    · exact hecho hdid
  · rw [hs']
    exact hgrants hserving

end UdsClient

namespace V2UdsFlasher

open Gateway.UdsClient

omit hpace hv in
theorem slotByte_cases (slot : SlotId) : BootUds.slotByte slot = 0 ∨ BootUds.slotByte slot = 1 ∨
    BootUds.slotByte slot = 255 := by
  rcases slot with - | - | - <;> decide

theorem returns_readSlot {did : Nat} {lo : Byte} {slot : SlotId}
    (hq : didRequest did = [0x22, 0xF1, lo]) (hdid : fromBytes [0xF1, lo] = did)
    (h : Facing pace (Grants t act version) s)
    (hrun : ∀ c, Grants t act version c → processRequest [0x22, 0xF1, lo] c =
      .done (some [0x62, 0xF1, lo, BootUds.slotByte slot]) (accessed c)) :
    Returns (readSlot (Bench.transport visits pace) did) (fun a s' =>
      a = (BootUds.slotByte slot).toNat ∧ Facing pace (Grants t act version) s') s := by
  unfold readSlot
  refine (returns_readDid (P := fun data => data = [BootUds.slotByte slot]) hpace hv hq hdid h
    fun c hc => ⟨_, _, rfl, hrun c hc, hc.accessed⟩).bind ?_
  rintro _ s' ⟨rfl, h'⟩
  refine .ite_neg ?_ (.pure ⟨rfl, h'⟩)
  rintro (hlen | hslot)
  · exact hlen rfl
  · exact hslot (slotByte_cases slot)

theorem returns_selectTarget {image : PackedImage} (h : Facing pace (Grants t act version) s)
    (htarget : image.slot = (ImageFormat.slots t).id)
    (hnewer : act.isSome = true → version.toNat < image.version) :
    Returns (selectTarget (Bench.transport visits pace) .plain image) (fun target s' =>
      target = image.slot ∧ Facing pace (Grants t act version) s') s := by
  -- the server's target is the one that the flasher expects beside the active slot
  have hpair : t = serverTarget act := by
    obtain ⟨⟨act', hs⟩, -⟩ := h.board.serving.sound
    have hact : act' = act := hs.active.symm.trans h.board.active
    have hsome := h.board.target.symm.trans hs.target
    rw [hact] at hsome
    exact Option.some.inj hsome
  unfold selectTarget
  have hactive : Returns (readSlot (Bench.transport visits pace) 0xF101) (fun a s' =>
      a = (BootUds.slotByte act).toNat ∧ Facing pace (Grants t act version) s') s := by
    refine returns_readSlot hpace hv rfl rfl h fun c hc => ?_
    rw [← hc.active]
    rfl
  refine hactive.bind ?_
  rintro _ s₁ ⟨rfl, h₁⟩
  have hread : Returns (readSlot (Bench.transport visits pace) 0xF103) (fun a s' =>
      a = (BootUds.slotByte (some t)).toNat ∧ Facing pace (Grants t act version) s') s₁ := by
    refine returns_readSlot hpace hv rfl rfl h₁ fun c hc => ?_
    rw [← hc.target]
    rfl
  refine hread.bind ?_
  rintro _ s₂ ⟨rfl, h₂⟩
  have hversion : Returns (readVersion (Bench.transport visits pace)) (fun a s' =>
      a = version.toNat ∧ Facing pace (Grants t act version) s') s₂ := by
    unfold readVersion
    refine (returns_readDid (P := fun data => data = write32 version) hpace hv rfl rfl h₂
      fun c hc => ⟨_, accessed c, rfl, ?_, hc.accessed⟩).bind ?_
    · rw [← hc.version]
      rfl
    rintro _ s' ⟨rfl, h'⟩
    exact .ite_neg (fun hno => hno rfl) (.pure ⟨fromBytes_write32 version, h'⟩)
  refine hversion.bind ?_
  rintro _ s₃ ⟨rfl, h₃⟩
  have hslot : (BootUds.slotByte (some t)).toNat = image.slot := by
    rw [htarget]
    cases t <;> rfl
  refine .ite_neg ?_ (.ite_neg ?_ (.ite_neg ?_ (.pure ⟨hslot, h₃⟩)))
  · rintro (hexpected | hno)
    · apply hexpected
      rw [hpair]
      rcases act with - | - | - <;> rfl
    · exact hno hslot
  · rintro ⟨hactive, hle⟩
    rcases act with - | x
    · exact hactive rfl
    · have hlt := hnewer rfl
      omega
  · rintro ⟨hno, -⟩
    cases hno

/-- Both reports are read, and the journal is ready. -/
theorem returns_checkJournal (h : Facing pace (Grants t act version) s) :
    Returns (checkJournal (Bench.transport visits pace) none) (fun _ s' =>
      Facing pace (Grants t act version) s') s := by
  have hstatus : Returns (readUpdateStatus (Bench.transport visits pace)) (fun a s' =>
      requireReady a = .ok () ∧ Facing pace (Grants t act version) s') s := by
    unfold readUpdateStatus
    refine (returns_readDid (P := fun data => ∃ a, UpdateStatus.parse data = .ok a ∧
      requireReady a = .ok ()) hpace hv rfl rfl h fun c hc => ?_).bind ?_
    · obtain ⟨-, hparse⟩ := UpdateStatus.parse_journalReport hc.serving.reporting.journal
      obtain ⟨hvalid, hfault⟩ := hc.canContinue
      refine ⟨_, _, ⟨_, hparse, ?_⟩, BootUds.processRequest_F104 c, hc.accessed⟩
      unfold requireReady
      rw [if_neg (by simp [hfault]), if_neg (by simp [hvalid])]
    · rintro data s' ⟨⟨a, hparse, hready⟩, h'⟩
      refine .lift (a := a) ?_ ⟨hready, h'⟩
      unfold parsed
      rw [hparse]
      rfl
  have hboot : ∀ s : Tester Bench, Facing pace (Grants t act version) s →
      Returns (readBootStatus (Bench.transport visits pace)) (fun _ s' =>
        Facing pace (Grants t act version) s') s := by
    intro s h
    unfold readBootStatus
    refine (returns_readDid (P := fun data => ∃ a, BootStatus.parse data = .ok a) hpace hv rfl rfl h
      fun c hc => ?_).bind ?_
    · have hd := hc.serving.reporting.lifecycle
      have hreloaded : BootLifecycle.Diagnosed (BootLifecycle.reloaded c.ram.lifecycle c.mem) :=
        ⟨hd.result, hd.failed, hd.rollback⟩
      obtain ⟨-, hparse⟩ := @BootStatus.parse_lifecycleReport { (accessed c).ram with
        lifecycle := BootLifecycle.reloaded c.ram.lifecycle c.mem } hreloaded
        (BootLifecycle.trusted_reloaded _ _)
      refine ⟨_, _, ⟨_, hparse⟩, BootUds.processRequest_F105 c, fun hserving => ?_⟩
      -- the server reads its records again for F105, and finds what it knew
      obtain ⟨⟨_, hs⟩, -⟩ := hc.serving.sound
      obtain ⟨⟨_, hs'⟩, -⟩ := hserving.sound
      refine ⟨⟨hserving, hc.idle, hc.target, hc.active, hc.version, ?_, hc.allowed⟩, hc.authorised⟩
      exact (BootLifecycle.canStartUpdate_congr hs.lifecycle hs'.lifecycle rfl rfl act
        (some t)).trans hc.lifecycle
    · rintro data s' ⟨⟨a, hparse⟩, h'⟩
      refine .lift (a := a) ?_ h'
      unfold parsed
      rw [hparse]
      rfl
  -- both identifiers are known, so nothing is caught as unavailable
  unfold checkJournal ifAvailable
  refine Returns.bind (Q := fun a s' => (∃ status, a = some status ∧ requireReady status = .ok ()) ∧
    Facing pace (Grants t act version) s') (.tryCatch (hstatus.bind ?_)) ?_
  · rintro a s' ⟨hready, h'⟩
    exact .pure ⟨⟨a, rfl, hready⟩, h'⟩
  rintro _ s₁ ⟨⟨status, rfl, hready⟩, h₁⟩
  refine Returns.bind (Q := fun _ s' => Facing pace (Grants t act version) s') ?_ ?_
  · unfold describeBoot ifAvailable
    refine .ite_pos rfl (Returns.bind (Q := fun _ s' => Facing pace (Grants t act version) s')
      (.tryCatch ((hboot s₁ h₁).bind fun _ s' h' => .pure h')) fun _ s' h' => .pure h')
  intro _ s₂ h₂
  refine Returns.bind (Q := fun a s' => a = some status ∧ Facing pace (Grants t act version) s')
    (.pure ⟨rfl, h₂⟩) ?_
  rintro _ s₃ ⟨rfl, h₃⟩
  exact .lift hready h₃

omit hpace hv in
theorem returns_state {state : FlashState} {P : Board → Prop} (h : Facing pace P s) :
    Returns (setState state) (fun _ s' => Facing pace P s') s := ⟨_, _, rfl, h.board, h.waits⟩

/-- The session is asked for until the bootloader answers; here that is the first time. -/
theorem returns_sessionLoop {deadline : Rat} {fuel : Nat} (hshort : pace ≤ 51 / 10)
    (h : Facing pace (Stands t act version) s) :
    Returns (sessionLoop (Bench.transport visits pace) deadline (fuel + 1)) (fun _ s' =>
      Facing pace (fun b => Stands t act version b ∧ b.ram.uds.session = 2) s') s := by
  unfold sessionLoop
  exact .tryCatch ((returns_diagnosticSession hpace hv hshort h).bind fun _ _ h' => .pure h')

theorem returns_prepare {image : PackedImage} (fuel : Nat) (hshort : pace ≤ 51 / 10)
    (h : Facing pace (Stands t act version) s)
    (htarget : image.slot = (ImageFormat.slots t).id)
    (hnewer : act.isSome = true → version.toNat < image.version) :
    Returns (prepare (Bench.transport visits pace) .plain none image (fuel + 1)) (fun target s' =>
      target = image.slot ∧ Facing pace (Grants t act version) s') s := by
  unfold prepare
  refine (returns_state h).bind fun _ s₀ h₀ => ?_
  refine (returns_diagnosticSession hpace hv hshort h₀).bind fun _ s₁ h₁ => ?_
  refine .bind_modify (Returns.bind (Q := fun _ s' => Facing pace (Stands t act version) s')
    ⟨_, _, rfl, h₁.board.1, h₁.waits⟩ fun now s₂ h₂ => ?_)
  -- the bootloader is already in the session, and answers a second time
  refine (returns_sessionLoop hpace hv hshort h₂).bind fun _ s₃ h₃ => ?_
  refine (returns_state h₃).bind fun _ s₄ h₄ => ?_
  have hopens : Facing pace (Opens t) s₄ := h₄.mono fun hb => hb.1.opens hb.2
  refine (returns_securityAccess hpace hv hopens).bind fun _ s₅ h₅ => ?_
  have hgrants : Facing pace (Grants t act version) s₅ := h₅.mono fun hb =>
    ⟨h₄.board.1.alike hb.2.2 hb.1, hb.2.1.authorised⟩
  refine (returns_state hgrants).bind fun _ s₆ h₆ => ?_
  refine (returns_checkJournal hpace hv h₆).bind fun _ s₇ h₇ => ?_
  exact returns_selectTarget hpace hv h₇ htarget hnewer

/-- The flasher takes a server from whatever session it is in to a published image, if the messages of
    the server come before the client stops waiting for one: at first as long as it was told before,
    from the response for the session on 5.1 seconds. -/
theorem prepare_program_delivers {image : PackedImage} {fuel : Nat}
    (hwait : pace ≤ s.p2StarSeconds) (hshort : pace ≤ 51 / 10)
    (hparse : PackedImage.parse data = .ok image) (h : Stands t act version s.link.board)
    (htarget : image.slot = (ImageFormat.slots t).id)
    (hnewer : act.isSome = true → version.toNat < image.version) : ∃ s₁ s',
    prepare (Bench.transport visits pace) .plain none image (fuel + 1) s =
      some (.ok image.slot, s₁) ∧ Offers t s₁.link.board ∧
    program (Bench.transport visits pace) .plain image data s₁ = some (.ok true, s') ∧
      Endures (.serving s'.link.board) ∧ Updated t (byteAt data) s'.link.board := by
  obtain ⟨_, s₁, hprepare, rfl, h₁⟩ := returns_prepare hpace hv fuel hshort ⟨h, hwait⟩ htarget hnewer
  obtain ⟨_, s', hrun, rfl, hend⟩ := returns_delivery hpace hv h₁.waits hparse h₁.board.serving
    h₁.board.offers htarget (by rwa [h₁.board.active, h₁.board.version])
  exact ⟨s₁, s', hprepare, h₁.board.offers, hrun, hend⟩

omit hpace hv

theorem prepare_program_delivers_first : ∃ b s₁ s', Stands .b (some .a) 0x01000000 b ∧
    prepare (Bench.transport (fun _ => patientVisit) 1) .plain none
      (PackedImage.imageIn updateFile .b) 1 ⟨⟨b, 0, [], 0⟩, 5, .idle, []⟩ =
        some (.ok (PackedImage.imageIn updateFile .b).slot, s₁) ∧ Offers .b s₁.link.board ∧
    program (Bench.transport (fun _ => patientVisit) 1) .plain (PackedImage.imageIn updateFile .b)
      updateFile s₁ = some (.ok true, s') ∧
    Endures (.serving s'.link.board) ∧ Updated .b (byteAt updateFile) s'.link.board := by
  obtain ⟨b, hb, ho, hactive, hversion⟩ := exists_updatable
  have hstands : Stands .b (some .a) 0x01000000 b :=
    ⟨hb, ho.idle, ho.target, hactive, hversion, hactive ▸ ho.lifecycle, hactive ▸ ho.allowed⟩
  obtain ⟨s₁, s', hend⟩ := prepare_program_delivers
    (s := ⟨⟨b, 0, [], 0⟩, 5, .idle, []⟩) zero_le_one (fun _ => fair_patientVisit) (by norm_num)
    (by norm_num) checked_updateFile.parse hstands rfl (fun _ => by
      rw [version_updateFile]
      decide)
  exact ⟨b, s₁, s', hstands, hend⟩

end V2UdsFlasher

end Gateway
