import BootloaderV2.Checkpoints

/-!
# A download from its erasure to its verification

The services of one transaction, in whatever order they come and with whatever comes in between.
The ones that are accepted lead from stage to stage, and each stage counts its bytes and its commits.
-/

open BootConfig NorFlash CrashM TwoCopy

open BootJournal (Current)

/-! ## The erasure -/

/-- A record of a transaction that has no byte yet. -/
structure Early (j : BootUpdateJournal) : Prop where
  state : j.state ≠ BootUpdateState.programming.code
  incomplete : j.committedSize ≠ j.expectedSize

/-- A command that leaves the record of before the erasure, or an early one. -/
def Begins (j₀ : BootUpdateJournal) : CommandRel := fun _ _ m' =>
  ∃ j, Current m' j ∧ (j = j₀ ∨ Early j)

/-- The transaction has begun, and its record is early. -/
structure Underway (b : Board) : Prop where
  inStep : BootUpdate.InStep b
  early : Early b.ram.update.current

namespace Begins

variable {b : Board} {j₀ j : BootUpdateJournal} {m₀ m' : Nat → Byte} {c : Command}
  {address size : Nat}

theorem of_slot (hj : Current m₀ j) (h : j = j₀ ∨ Early j) {m : Nat → Byte}
    (hm : SameOutside address size m₀ m') (hend : address + size ≤ journalCopy0Address) :
    Begins j₀ c m m' := by
  refine ⟨j, ?_, h⟩
  apply hj.congr
  intro a ha _
  exact hm a (by omega)

end Begins

namespace Underway

variable {b b' : Board} {next : BootUpdateJournal} {address size : Nat}

theorem sent (h : Underway b) (hdev : b'.dev = b.dev) (hram : b'.ram = b.ram) : Underway b' where
  inStep := h.inStep.congr (by rw [hram]) fun a _ _ => congrFun (congrArg Device.mem hdev) a
  early := by rw [hram]; exact h.early

theorem wrote {d : Device Note} (h : Underway b) (hout : SameOutside address size b.mem d.mem)
    (hend : address + size ≤ journalCopy0Address) : Underway (b.setDev d) where
  inStep := h.inStep.congr (by rw [Board.setDev_ram]) fun a ha _ => hout a (by omega)
  early := h.early

theorem logged (h : BootUpdate.Logged b next b') (hnext : Early next) : Underway b' := by
  obtain ⟨j, -, hcur⟩ := h.record
  refine ⟨h.inStep, ?_⟩
  rw [hcur]
  exact ⟨hnext.state, hnext.incomplete⟩

end Underway

namespace BootUpdate

variable {b : Board} {j₀ j next : BootUpdateJournal}

theorem begins_save (hj : Current b.mem j) (h : j = j₀ ∨ Early j) (hnext : Early next) :
    Issues (Begins j₀) (save next) (fun ok b' => ok = true → Underway b') b := by
  apply ((issues_save_swaps hj).weaken ?_).mono
  · exact fun ok b' hb hok => .logged (hb hok).1 hnext
  · intro c m m' ⟨_, hm', _⟩
    rcases hm' with hold | hnew
    · exact ⟨j, hold, h⟩
    · exact ⟨_, hnew, .inr ⟨hnext.state, hnext.incomplete⟩⟩

theorem begins_setState {q : BootUpdateState} (h : Underway b)
    (hq : q.code ≠ BootUpdateState.programming.code) :
    Issues (Begins j₀) (setState q) (fun ok b' => ok = true → Underway b') b := by
  unfold setState
  rw [Issues.bind_getRam]
  exact .ite (fun _ => .pure fun hno => by cases hno) fun _ =>
    begins_save h.inStep.current (.inr h.early) ⟨hq, h.early.incomplete⟩

theorem begins_abort {reason : BootUpdateResult} (h : Underway b) :
    Issues (Begins j₀) (abort reason) (fun _ _ => True) b := by
  have hst : BootUpdateState.aborted.code ≠ BootUpdateState.programming.code := by decide
  unfold abort
  rw [Issues.bind_setUpdate, Issues.bind_getRam]
  refine .ite (fun _ => .pure trivial) fun _ => ?_
  have h₁ : Underway { b with ram := { b.ram with update := { b.ram.update with
      targetRevalidated := false } } } := ⟨⟨h.inStep.can, h.inStep.current⟩, h.early⟩
  refine (begins_save h₁.inStep.current (.inr h₁.early) ?_).mono fun _ _ _ => trivial
  exact ⟨hst, h.early.incomplete⟩

/-- `BootUpdate_Begin` over whatever record is current. -/
theorem begins_beginUpdate {active target : SlotId} {size : Nat} (hj : Current b.mem j₀) :
    Issues (Begins j₀) (beginUpdate active target size) (fun ok b' => ok = true → Underway b') b := by
  have hst : BootUpdateState.preparing.code ≠ BootUpdateState.programming.code := by decide
  unfold beginUpdate
  rw [Issues.bind_getRam]
  refine .ite (fun _ => .pure fun hno => by cases hno) fun hallowed => ?_
  -- the size asked for is that of the target, and not zero
  have hnext : Early (beginRecord b.ram.update.current active target size) := by
    refine ⟨hst, ?_⟩
    simp only [Bool.not_eq_true', Bool.not_eq_false] at hallowed
    unfold beginAllowed at hallowed
    simp only [Bool.and_eq_true, beq_iff_eq] at hallowed
    obtain ⟨t, ht⟩ := Option.isSome_iff_exists.1 hallowed.1.1.1.1.2
    have hsize : size = slotSize := by
      rw [hallowed.1.1.2, ht]
      cases t <;> rfl
    rw [hsize]
    show (0 : Word) ≠ BitVec.ofNat 32 slotSize
    decide
  apply (begins_save hj (.inl rfl) hnext).bind
  intro ok b₁ h₁
  refine .ite (fun _ => .pure fun hno => by cases hno) fun hok => ?_
  have hunder := h₁ (by simpa using hok)
  rw [Issues.bind_setUpdate]
  exact .pure fun _ => ⟨⟨hunder.inStep.can, hunder.inStep.current⟩, hunder.early⟩

end BootUpdate

namespace BootFlash

variable {b : Board} {j₀ : BootUpdateJournal} {address size : Nat} {data : Nat → Byte}

theorem begins_erase (h : Underway b) :
    Issues (Begins j₀) (erase address size) (fun _ => Underway) b := by
  by_cases hvalid : isRangeValid b.ram.flash address size = true
  · have hend := (lt_journal_of_valid hvalid).1
    apply (issues_erase fun n _ => ?_).mono
    · intro ok b' ⟨d, hb', hout⟩
      rw [hb']
      exact h.wrote hout hend
    · exact .of_slot h.inStep.current (.inr h.early)
        (sameOutside_effect (.erase address size) n _) hend
  · unfold erase
    rw [Issues.bind_getRam]
    exact .ite (fun _ => .pure h) fun hno => absurd (by simp [hvalid]) hno

theorem begins_program (h : Underway b) :
    Issues (Begins j₀) (program address data size) (fun _ => Underway) b := by
  by_cases hvalid : isRangeValid b.ram.flash address size = true
  · have hend := (lt_journal_of_valid hvalid).1
    apply (issues_program fun m n offset phrase hm _ hoffset => ?_).mono
    · intro ok b' ⟨d, hb', hout⟩
      rw [hb']
      exact h.wrote hout hend
    · have hphrase := sameOutside_effect (.program (address + offset) flashPhraseSize phrase) n m
      exact .of_slot h.inStep.current (.inr h.early) (hm.trans (hphrase.mono
        (Nat.le_add_right _ _) (show address + offset + flashPhraseSize ≤ _ by omega))) hend
  · unfold program
    rw [Issues.bind_getRam]
    exact .ite (fun _ => .pure h) fun hno => absurd (by simp [hvalid]) hno

end BootFlash

namespace BootProgramming

variable {b : Board} {j₀ : BootUpdateJournal} {address size : Nat}

theorem begins_giveUp {r : Byte} (h : Underway b) : Issues (Begins j₀)
    (do let _ ← BootUpdate.abort .eraseFailed; return r) (fun _ _ => True) b := by
  apply (BootUpdate.begins_abort h).bind
  exact fun _ _ _ => .pure trivial

theorem begins_eraseLoop {header current n : Nat} (h : Underway b) :
    Issues (Begins j₀) (eraseLoop header current n) (fun r b' => r = 0 → Underway b') b := by
  induction n generalizing b current with
  | zero => exact .pure fun _ => h
  | succ n ih =>
    unfold eraseLoop
    refine .ite (fun _ => ih h) fun _ => ?_
    apply issues_transmit.bind
    rintro ok b₁ ⟨hdev, hram⟩
    refine .ite (fun _ => .pure fun h0 => absurd h0 (by decide)) fun _ => ?_
    apply (BootFlash.begins_erase (h.sent hdev hram)).bind
    intro ok b₂ h₂
    refine .ite (fun _ => ?_) fun _ => ih h₂
    apply (BootUpdate.begins_abort h₂).bind
    exact fun _ _ _ => .pure fun h0 => absurd h0 (by decide)

/-- Service 31 FF00. -/
theorem begins_erase (hj : Current b.mem j₀) :
    Issues (Begins j₀) (erase address size) (fun _ _ => True) b := by
  unfold erase
  rw [Issues.bind_getRam]
  dsimp only
  refine .ite (fun _ => .pure trivial) fun _ => .ite (fun _ => .pure trivial) fun _ => ?_
  refine .ite (fun _ => .pure trivial) fun _ => .ite (fun _ => .pure trivial) fun _ => ?_
  unfold abort
  rw [Issues.bind_setProgramming]
  apply issues_configureSlots.bind
  intro ok b₁ ⟨f, hb₁⟩
  refine .ite (fun _ => .pure trivial) fun _ => ?_
  apply issues_transmit.bind
  intro ok b₂ ⟨hdev₂, _⟩
  refine .ite (fun _ => .pure trivial) fun _ => ?_
  have hj₂ : Current b₂.mem j₀ := by
    unfold Board.mem
    rw [hdev₂, hb₁]
    exact hj
  unfold eraseTarget
  dsimp only
  apply (BootUpdate.begins_beginUpdate hj₂).bind
  intro ok b₃ h₃
  refine .ite (fun _ => .pure trivial) fun hok₃ => ?_
  apply (BootUpdate.begins_setState (h₃ (by simpa using hok₃)) (by decide)).bind
  intro ok b₄ h₄
  refine .ite (fun _ => .pure trivial) fun hok₄ => ?_
  apply (BootFlash.begins_erase (h₄ (by simpa using hok₄))).bind
  intro ok b₅ h₅
  refine .ite (fun _ => begins_giveUp h₅) fun _ => ?_
  apply (BootFlash.begins_program h₅).bind
  intro ok b₆ h₆
  refine .ite (fun _ => begins_giveUp h₆) fun _ => ?_
  apply (begins_eraseLoop h₆).bind
  intro r b₇ h₇
  refine .ite (fun _ => .pure trivial) fun hr => ?_
  apply (BootUpdate.begins_setState (h₇ (not_not.1 hr)) (by decide)).bind
  intro ok b₈ _
  refine .ite (fun _ => .pure trivial) fun _ => ?_
  rw [Issues.bind_setProgramming]
  exact .pure trivial

end BootProgramming

/-! ## The services of a transaction -/

namespace BootProgramming

/-- A request that may come once the target is erased. -/
inductive Service where
  | download (address size : Nat)
  | transfer (sequence : Byte) (data : List Byte)
  | exit
  | verify
  deriving DecidableEq

namespace Service

def run : Service → BootM Byte
  | download address size => BootProgramming.download address size
  | transfer sequence data => BootProgramming.transfer sequence data
  | exit => BootProgramming.exit
  | verify => BootProgramming.verify

/-- The bytes of the image that come with it. -/
def data : Service → List Byte
  | transfer _ data => data
  | _ => []

/-- The bytes that come with the services, one after the other. -/
def sent (services : List Service) : List Byte := services.flatMap data

theorem sent_append (services : List Service) (s : Service) :
    sent (services ++ [s]) = sent services ++ s.data := by
  simp [sent]

end Service

/-- Between two services the access may change, and the hardware, but neither the flash nor the
    transaction. -/
structure Pauses (b b' : Board) : Prop where
  mem : b'.mem = b.mem
  log : b'.dev.log = b.dev.log
  update : b'.ram.update = b.ram.update
  programming : b'.ram.programming = { b.ram.programming with
    sessionActive := b'.ram.programming.sessionActive
    securityUnlocked := b'.ram.programming.securityUnlocked }

/-- The services that have been accepted after an erasure at `b₀`, each with at most 128 bytes. -/
inductive Serviced (address size : Nat) (b₀ : Board) : List Service → Board → Prop where
  | erase {b : Board} (hrun : erase address size b₀ = .done 0 b) : Serviced address size b₀ [] b
  | pause {services : List Service} {b b' : Board} (h : Serviced address size b₀ services b)
      (hpause : Pauses b b') : Serviced address size b₀ services b'
  | service {services : List Service} {b b' : Board} (h : Serviced address size b₀ services b)
      (s : Service) (hsize : s.data.length ≤ 128) (hrun : s.run b = .done 0 b') :
      Serviced address size b₀ (services ++ [s]) b'

variable {b b' b₀ : Board} {t : Slot} {start : Nat} {received data : List Byte}
  {services : List Service} {address size : Nat}

/-- How far a transaction has come. -/
inductive Stage (t : Slot) (start : Nat) : List Byte → Board → Prop where
  | awaits {b : Board} (h : Awaits t start b) : Stage t start [] b
  | receives {received : List Byte} {b : Board} (h : Receives t received start b) :
      Stage t start received b
  | finished {received : List Byte} {b : Board} (h : Arrived t start b) : Stage t start received b
  | concluded {received : List Byte} {b : Board} (h : Concluded start b) : Stage t start received b

/-! ### A pause -/

namespace Pauses

theorem inStep (hp : Pauses b b') (h : BootUpdate.InStep b) : BootUpdate.InStep b' :=
  h.congr hp.update fun a _ _ => congrFun hp.mem a

theorem commits (hp : Pauses b b') : b'.commits = b.commits := congrArg (List.countP isCommit) hp.log

theorem awaits (hp : Pauses b b') (h : Awaits t start b) : Awaits t start b' where
  target := by rw [hp.programming]; exact h.target
  address := by rw [hp.programming]; exact h.address
  size := by rw [hp.programming]; exact h.size
  inactive := by rw [hp.programming]; exact h.inactive
  incomplete := by rw [hp.programming]; exact h.incomplete
  received := by rw [hp.programming]; exact h.received
  programmed := by rw [hp.programming]; exact h.programmed
  buffered := by rw [hp.programming]; exact h.buffered
  inStep := hp.inStep h.inStep
  state := by rw [hp.update]; exact h.state
  targetCode := by rw [hp.update]; exact h.targetCode
  expected := by rw [hp.update]; exact h.expected
  committed := by rw [hp.update]; exact h.committed
  commits := hp.commits.trans h.commits

theorem carries (hp : Pauses b b') (h : Carries t received b) : Carries t received b' where
  target := by rw [hp.programming]; exact h.target
  address := by rw [hp.programming]; exact h.address
  size := by rw [hp.programming]; exact h.size
  active := by rw [hp.programming]; exact h.active
  programmed := by rw [hp.programming]; exact h.programmed
  buffered := by rw [hp.programming]; exact h.buffered
  buffer := by rw [hp.programming]; exact h.buffer
  holds := by rw [hp.mem]; exact h.holds

theorem receives (hp : Pauses b b') (h : Receives t received start b) :
    Receives t received start b' where
  carries := hp.carries h.carries
  counts := h.counts.kept ⟨hp.update, hp.commits, fun a _ _ => congrFun hp.mem a⟩
  counter := by rw [hp.programming]; exact h.counter
  fit := h.fit

theorem finished (hp : Pauses b b') (h : Arrived t start b) : Arrived t start b' where
  target := by rw [hp.programming]; exact h.target
  inactive := by rw [hp.programming]; exact h.inactive
  complete := by rw [hp.programming]; exact h.complete
  inStep := hp.inStep h.inStep
  state := by rw [hp.update]; exact h.state
  commits := hp.commits.trans h.commits

theorem concluded (hp : Pauses b b') (h : Concluded start b) : Concluded start b' where
  inactive := by rw [hp.programming]; exact h.inactive
  complete := by rw [hp.programming]; exact h.complete
  verified := by rw [hp.programming]; exact h.verified
  inStep := hp.inStep h.inStep
  state := by rw [hp.update]; exact h.state
  commits := hp.commits.trans h.commits

end Pauses

theorem Stage.pause (h : Stage t start received b) (hp : Pauses b b') :
    Stage t start received b' := by
  cases h with
  | awaits h => exact .awaits (hp.awaits h)
  | receives h => exact .receives (hp.receives h)
  | finished h => exact .finished (hp.finished h)
  | concluded h => exact .concluded (hp.concluded h)

/-! ### A service that comes too early or too late -/

section Refusals

variable {R : CommandRel}

theorem refuses {r : Byte} (hr : ¬ r = 0) :
    Issues R (pure r : BootM Byte) (fun r _ => ¬ r = 0) b := .pure hr

theorem download_refused (h : b.ram.programming.downloadActive = true ∨
    b.ram.programming.transferComplete = true) :
    Issues R (download address size) (fun r _ => ¬ r = 0) b := by
  unfold download
  rw [Issues.bind_getRam]
  dsimp only
  refine .ite refuses fun _ => .ite (fun _ => refuses (by decide)) fun _ => ?_
  refine .ite (fun _ => refuses (by decide)) fun hno => ?_
  simp only [Bool.or_eq_true, not_or] at hno
  rcases h with h | h
  · exact absurd h hno.1.1.1.1.2
  · exact absurd h hno.1.1.1.2

theorem transfer_refused {sequence : Byte} (h : b.ram.programming.downloadActive = false) :
    Issues R (transfer sequence data) (fun r _ => ¬ r = 0) b := by
  unfold transfer
  rw [Issues.bind_getRam]
  dsimp only
  rw [h]
  exact .ite refuses fun _ => .ite (fun _ => refuses (by decide)) fun hno => absurd rfl hno

theorem exit_refused (h : b.ram.programming.downloadActive = false) :
    Issues R exit (fun r _ => ¬ r = 0) b := by
  unfold exit
  rw [Issues.bind_getRam]
  dsimp only
  rw [h]
  exact .ite refuses fun _ => .ite (fun _ => refuses (by decide)) fun hno => absurd rfl hno

theorem verify_refused (h : b.ram.programming.transferComplete = false ∨
    b.ram.programming.downloadActive = true ∨ b.ram.programming.imageVerified = true) :
    Issues R verify (fun r _ => ¬ r = 0) b := by
  unfold verify
  rw [Issues.bind_getRam]
  dsimp only
  refine .ite refuses fun _ => .ite (fun _ => refuses (by decide)) fun hno => ?_
  simp only [Bool.or_eq_true, not_or, Bool.not_eq_true'] at hno
  rcases h with h | h | h
  · exact absurd h hno.1.1.2
  · exact absurd h hno.1.2
  · exact absurd h hno.2

end Refusals

/-! ### One service -/

/-- A service at any stage: what it does to the journal, and the stage it leads to. -/
theorem Stage.checked (h : Stage t start received b) (s : Service) :
    Issues (Checked (received ++ s.data)) s.run (fun r b' => r = 0 → s.data.length ≤ 128 →
      Stage t start (received ++ s.data) b') b := by
  have hrefused : ∀ {m : BootM Byte}, Issues (Checked (received ++ s.data)) m
      (fun r _ => ¬ r = 0) b → Issues (Checked (received ++ s.data)) m
      (fun r b' => r = 0 → s.data.length ≤ 128 → Stage t start (received ++ s.data) b') b :=
    fun hm => hm.mono fun _ _ hr h0 => absurd h0 hr
  cases h with
  | awaits h =>
    cases s with
    | download address size => exact (checked_download h).mono fun _ _ h' h0 _ => .receives (h' h0)
    | transfer sequence data => exact hrefused (transfer_refused h.inactive)
    | exit => exact hrefused (exit_refused h.inactive)
    | verify => exact hrefused (verify_refused (.inl h.incomplete))
  | receives h =>
    cases s with
    | download address size => exact hrefused (download_refused (.inl h.carries.active))
    | transfer sequence data =>
      exact (checked_transfer h).mono fun _ _ h' h0 hsize => .receives (h' h0 hsize)
    | exit =>
      have hexit := checked_exit h
      rw [← List.append_nil received] at hexit
      exact hexit.mono fun _ _ h' h0 _ => .finished (h' h0)
    | verify => exact hrefused (verify_refused (.inr (.inl h.carries.active)))
  | finished h =>
    cases s with
    | download address size => exact hrefused (download_refused (.inr h.complete))
    | transfer sequence data => exact hrefused (transfer_refused h.inactive)
    | exit => exact hrefused (exit_refused h.inactive)
    | verify => exact (checked_verify h).mono fun _ _ h' h0 _ => .concluded (h' h0)
  | concluded h =>
    cases s with
    | download address size => exact hrefused (download_refused (.inr h.complete))
    | transfer sequence data => exact hrefused (transfer_refused h.inactive)
    | exit => exact hrefused (exit_refused h.inactive)
    | verify => exact hrefused (verify_refused (.inr (.inr h.verified)))

/-! ### The transaction -/

/-- A run of accepted services is at one of the stages. -/
theorem Serviced.stage (h : Serviced address size b₀ services b) :
    ∃ t, Stage t b₀.commits (Service.sent services) b := by
  induction h with
  | erase hrun =>
    obtain ⟨t, -, hprepared, -⟩ := ensures_erase_prepared.of_done hrun rfl
    have hcommits := (commits_erase b₀).of_done hrun rfl
    exact ⟨t, .awaits (.of_prepared hprepared hcommits)⟩
  | pause _ hpause ih =>
    obtain ⟨t, hstage⟩ := ih
    exact ⟨t, hstage.pause hpause⟩
  | service _ s hsize hrun ih =>
    obtain ⟨t, hstage⟩ := ih
    rw [Service.sent_append]
    exact ⟨t, (hstage.checked s).of_done hrun rfl hsize⟩

/-- After the verification the transaction is concluded. -/
theorem Serviced.concluded (h : Serviced address size b₀ services b)
    (hverify : Service.verify ∈ services) : Concluded b₀.commits b := by
  induction h with
  | erase => cases hverify
  | pause _ hpause ih => exact hpause.concluded (ih hverify)
  | @service services b b' h s hsize hrun ih =>
    -- nothing is accepted after a verification, so that the last service is it
    by_cases hlast : s = .verify
    · obtain ⟨t, hstage⟩ := h.stage
      rw [hlast] at hrun
      have hno : ∀ {Q : Prop}, Issues (fun _ _ _ => True) verify (fun r _ => ¬ r = 0) b → Q :=
        fun hm => absurd rfl (hm.of_done hrun)
      generalize Service.sent services = received at hstage
      cases hstage with
      | awaits h => exact hno (verify_refused (.inl h.incomplete))
      | receives h => exact hno (verify_refused (.inr (.inl h.carries.active)))
      | finished h =>
        have hverified : Issues (Checked received) verify _ b := checked_verify h
        exact hverified.of_done hrun rfl
      | concluded h => exact hno (verify_refused (.inr (.inr h.verified)))
    · have hbefore : Service.verify ∈ services := by
        rcases List.mem_append.1 hverify with hmem | hmem
        · exact hmem
        · exact absurd (List.mem_singleton.1 hmem).symm hlast
      have hdone := ih hbefore
      have hno : ∀ {Q : Prop}, Issues (fun _ _ _ => True) s.run (fun r _ => ¬ r = 0) b → Q :=
        fun hm => absurd rfl (hm.of_done hrun)
      cases s with
      | download address size => exact hno (download_refused (.inr hdone.complete))
      | transfer sequence data => exact hno (transfer_refused hdone.inactive)
      | exit => exact hno (exit_refused hdone.inactive)
      | verify => exact absurd rfl hlast

theorem Stage.backed (h : Stage t start received b) :
    ∃ j, Current b.mem j ∧ Backed received j b.mem := by
  cases h with
  | awaits h => exact ⟨_, h.inStep.current, h.backed⟩
  | receives h => exact ⟨_, h.counts.inStep.current, h.counts.backed h.fit h.carries.holds⟩
  | finished h =>
    refine ⟨_, h.inStep.current, .of_late ?_⟩
    rw [h.state]
    exact BitVec.le_refl _
  | concluded h =>
    refine ⟨_, h.inStep.current, .of_late ?_⟩
    rw [h.state]
    decide

/-- The checkpoints are sound.  The erasure leaves records without a byte; after any services that
    have been accepted the journal is backed, and the next service, however it ends or is cut, keeps
    it so at each command; and a verified update has made fourteen commits. -/
theorem checkpoints_sound (h : Serviced address size b₀ services b) :
    (∀ j₀, Current b₀.mem j₀ →
      Evolves (Begins j₀) b₀.dev (erase address size b₀).state.dev) ∧
    (∃ j, Current b.mem j ∧ Backed (Service.sent services) j b.mem) ∧
    (∀ s : Service, Evolves (Checked (Service.sent services ++ s.data)) b.dev
      (s.run b).state.dev) ∧
    (Service.verify ∈ services → b.commits = b₀.commits + 14) := by
  obtain ⟨t, hstage⟩ := h.stage
  refine ⟨fun j₀ hj₀ => ?_, hstage.backed, fun s => ?_, fun hverify => ?_⟩
  · exact (begins_erase hj₀).evolves
  · exact (hstage.checked s).evolves
  · exact (h.concluded hverify).commits

/-- The first `n` blocks of an image, with their numbers. -/
def blocksOf (img : Nat → Byte) (n : Nat) : List Service :=
  (List.range n).map fun i => .transfer (BitVec.ofNat 8 (i + 1)) (block img (i * 128) 128)

theorem blocksOf_succ (img : Nat → Byte) (n : Nat) : blocksOf img (n + 1) =
    blocksOf img n ++ [.transfer (BitVec.ofNat 8 (n + 1)) (block img (n * 128) 128)] := by
  unfold blocksOf
  rw [List.range_succ, List.map_append]
  rfl

/-- They are accepted one after the other. -/
theorem Serviced.exists_blocksOf {img : Nat → Byte} {b₂ : Board}
    (h : Serviced address size b₀ services b₂) (hs : Started t b₂) (hd : b₂.dev.Healthy)
    (hmax : b₂.ram.programming.maxBlockLength = downloadMaxBlockLength) (htail : TailErased img)
    {n : Nat} (hn : n ≤ 1792) : ∃ b, Serviced address size b₀ (services ++ blocksOf img n) b ∧
      Sending img b₂ (n * 128) (BitVec.ofNat 8 (n + 1)) b := by
  induction n with
  | zero =>
    refine ⟨b₂, ?_, .start⟩
    rw [show blocksOf img 0 = [] from rfl, List.append_nil]
    exact h
  | succ n ih =>
    obtain ⟨b, hserviced, hsend⟩ := ih (by omega)
    have hss : slotSize = 229376 := rfl
    have hfits : n * 128 + 128 ≤ slotSize := by omega
    obtain ⟨hr, hp, hc⟩ := hsend.receiving hs hd hmax htail
    obtain ⟨r, b', hrun, rfl, -⟩ :=
      (completes_transfer hs hmax htail hr hp (by decide) le_rfl hfits).exists_done
    rw [hc] at hrun
    have hblock : (Service.transfer (BitVec.ofNat 8 (n + 1))
        (block img (n * 128) 128)).data.length ≤ 128 := by
      show (block img (n * 128) 128).length ≤ 128
      rw [length_block]
    refine ⟨b', ?_, ?_⟩
    · rw [blocksOf_succ, ← List.append_assoc]
      exact hserviced.service _ hblock hrun
    · have hnext := hsend.block (by decide) le_rfl hfits hrun
      rw [show (n + 1) * 128 = n * 128 + 128 by omega, BitVec.ofNat_add (n + 1) 1]
      exact hnext

/-- A whole image for slot A, up to the exit. -/
def wholeImage : List Service :=
  [.download slotABaseAddress slotSize] ++ blocksOf countingImage 1792 ++ [.exit]

/-- A blank device takes it, with six checkpoints on the way, and then a verification is asked for. -/
theorem checkpoints_sound_whole : ∃ b : Board,
    (∃ j, Current b.mem j ∧ Backed (Service.sent wholeImage) j b.mem) ∧
    Evolves (Checked (Service.sent wholeImage ++ Service.verify.data)) b.dev
      (Service.verify.run b).state.dev := by
  obtain ⟨b₀, he, hmax⟩ := erasable_blank
  obtain ⟨r, b₁, herase, rfl, hd₁, hr₁⟩ := (completes_erase he).exists_done
  obtain ⟨t, haddress, hopened, hmax₁⟩ := ensures_erase_prepared.of_done herase rfl
  obtain rfl : t = .a := by
    revert haddress
    cases t <;> decide
  obtain ⟨r, b₂, hdownload, rfl, hd₂, -⟩ := (completes_download hopened hd₁ hr₁).exists_done
  obtain ⟨hs, hmax₂⟩ := (ensures_download_started hopened.toOpened).of_done hdownload rfl
  have hlength : b₂.ram.programming.maxBlockLength = downloadMaxBlockLength := by
    rw [hmax₂, hmax₁, hmax]
  have htail : TailErased countingImage := by
    intro i hi _
    exact if_neg (by unfold BootImageHeader.size at hi; omega)
  have hstart : Serviced slotABaseAddress slotSize b₀ [] b₁ := .erase herase
  have hdown := hstart.service (.download slotABaseAddress slotSize) (Nat.zero_le 128) hdownload
  obtain ⟨b₃, hblocks, hsend⟩ := hdown.exists_blocksOf hs hd₂ hlength htail le_rfl
  obtain ⟨hr, hp, -⟩ := hsend.receiving hs hd₂ hlength htail
  obtain ⟨r, b₄, hexit, rfl, -⟩ := (completes_exit hs hr hp).exists_done
  have hall : Serviced slotABaseAddress slotSize b₀ wholeImage b₄ :=
    hblocks.service .exit (Nat.zero_le 128) hexit
  obtain ⟨-, hbacked, hnext, -⟩ := checkpoints_sound hall
  exact ⟨b₄, hbacked, hnext .verify⟩

end BootProgramming
