import BootloaderV2.Opening
import BootloaderV2.Upkeep

/-!
# How often the journal is written

A commit erases one copy of the journal, and nothing else does.  So the log tells how many commits
were made, and each service that succeeds makes a fixed number of them, but for the transfer.
-/

open BootConfig NorFlash CrashM TwoCopy

/-- The event is the erasure of a journal copy. -/
def isCommit : Event Note → Bool
  | .command (.erase address _) _ =>
    decide (journalCopy0Address ≤ address ∧ address < metadataSlotACopy0Address)
  | _ => false

/-- The commits made so far. -/
def Board.commits (b : Board) : Nat := b.dev.log.countP isCommit

/-- A command that is no commit: it programs, or it lies below the journal. -/
def Uncommitting : CommandRel := fun c _ _ =>
  (∃ a n data, c = .program a n data) ∨ c.address < journalCopy0Address

theorem NorFlash.Evolves.countP_isCommit {d d' : Device Note} (h : Evolves Uncommitting d d') :
    d'.log.countP isCommit = d.log.countP isCommit := by
  induction h with
  | refl => rfl
  | command c n _ hc ih =>
    have hno : ∀ mem, isCommit (.command c mem) ≠ true := by
      intro mem
      rcases hc with ⟨a, size, data, rfl⟩ | hlow
      · exact fun h => by cases h
      · cases c with
        | erase a size =>
          have hlow : a < journalCopy0Address := hlow
          intro h
          have hrange := of_decide_eq_true h
          omega
        | program a size data => exact fun h => by cases h
    rw [Device.after_log, List.countP_cons_of_neg (hno _)]
    exact ih

/-- `m` makes no commit. -/
def NoCommit {α : Type} (m : BootM α) : Prop :=
  ∀ b, Ensures m (fun _ b' => b'.commits = b.commits) b

namespace NoCommit

variable {α : Type} {m : BootM α}

theorem of_issues {Q : Board → α → Board → Prop} (h : ∀ b, Issues Uncommitting m (Q b) b) :
    NoCommit m := fun b =>
  wp_mono (h b) (fun _ _ hb => hb.1.countP_isCommit) fun _ _ => trivial

theorem sequenced : Sequenced @NoCommit where
  pure _ _ := .pure rfl
  bind hm hf b := (hm b).bind fun a b' h => (hf a b').mono fun _ _ h' => h'.trans h
  get _ := .pure rfl

/-- Variables change without a command. -/
theorem modify {g : Board → Board} (h : ∀ b, (g b).dev = b.dev) : NoCommit (CrashM.modify g) :=
  fun b => congrArg (fun d : Device Note => d.log.countP isCommit) (h b)

end NoCommit

/-- `m` makes `k` commits when its result is good. -/
def Commits {α : Type} (good : α → Prop) (k : Nat) (m : BootM α) : Prop :=
  ∀ b, Ensures m (fun a b' => good a → b'.commits = b.commits + k) b

namespace Commits

variable {α β : Type} {good : α → Prop} {fine : β → Prop} {m n : BootM α} {k l : Nat}

theorem of_quiet (h : NoCommit m) : Commits good 0 m := fun b => (h b).mono fun _ _ hb _ => hb

/-- A result that is not good needs no count. -/
theorem refused {a : α} (h : ¬ good a) : Commits good k (Pure.pure a : BootM α) :=
  fun _ => .pure fun ha => absurd ha h

theorem ite {c : Prop} [Decidable c] (hm : c → Commits good k m) (hn : ¬ c → Commits good k n) :
    Commits good k (if c then m else n) := by
  split
  · exact hm ‹_›
  · exact hn ‹_›

theorem getRam {g : Ram → BootM α} (h : ∀ r, Commits good k (g r)) :
    Commits good k (BootM.getRam >>= g) := fun b => h b.ram b

theorem flash {g : (Nat → Byte) → BootM α} (h : ∀ mem, Commits good k (g mem)) :
    Commits good k (BootM.flash >>= g) := fun b => h b.mem b

/-- What makes no commit may come first, whatever becomes of it. -/
theorem quiet {f : α → BootM β} (hm : NoCommit m) (hf : ∀ a, Commits fine k (f a)) :
    Commits fine k (m >>= f) := fun b =>
  (hm b).bind fun a b' h => (hf a b').mono fun _ _ h' hc => (h' hc).trans (congrArg (· + k) h)

/-- After a failure the result is not good any more. -/
theorem guard {m : BootM Bool} {refuse rest : BootM β} (hm : Commits (· = true) k m)
    (hrefuse : ∀ b, Ensures refuse (fun c _ => ¬ fine c) b) (hrest : Commits fine l rest) :
    Commits fine (l + k) (m >>= fun ok => if (!ok) = true then refuse else rest) := by
  intro b
  apply (hm b).bind
  intro ok b' h
  cases ok with
  | true =>
    apply (hrest b').mono
    intro c b'' h' hc
    rw [h' hc, h rfl, Nat.add_assoc, Nat.add_comm k l]
  | false =>
    apply (hrefuse b').mono
    exact fun _ _ hno hc => absurd hc hno

end Commits

/-! ## The flash -/

namespace FlashDriver

variable {address size start stop : Nat} {data : Nat → Byte} {b : Board}

theorem noCommit_program : NoCommit (program address data size) :=
  .of_issues (Q := fun b _ b' => ∃ d, b' = b.setDev d ∧ SameOutside address size b.mem d.mem)
    fun _ => issues_program fun _ _ _ _ _ _ _ _ _ => .inl ⟨_, _, _, rfl⟩

/-- An erase that succeeds is one command. -/
theorem ensures_erase_log : Ensures (erase address size) (fun ok b' => ok = true →
    ∃ mem, b'.dev.log = .command (.erase address size) mem :: b.dev.log) b := by
  have hissue : Ensures (BootM.device (issue (.erase address size))) (fun _ b' =>
      ∃ mem, b'.dev.log = .command (.erase address size) mem :: b.dev.log) b := by
    apply BootM.wp_device.2
    apply wp_issue
    · exact ⟨_, rfl⟩
    · exact fun _ _ => trivial
    · exact fun _ _ => ⟨_, rfl⟩
  unfold erase
  rw [Ensures.bind_getRam]
  refine .ite (fun _ => .pure fun h => by cases h) fun _ => ?_
  apply hissue.bind
  intro ok b' hlog
  refine .ite (fun _ => .pure fun h => by cases h) fun _ => ?_
  rw [Ensures.bind_flash]
  exact .pure fun _ => hlog

theorem commits_withWindow {k : Nat} {m : BootM Bool} (h : Commits (· = true) k m) :
    Commits (· = true) k (withWindow start stop m) := by
  intro b
  unfold withWindow setWindow
  rw [Ensures.bind_getRam, Ensures.bind_setFlash]
  apply (h _).bind
  intro ok b' hb
  rw [Ensures.bind_setFlash]
  exact .pure hb

theorem noCommit_withWindow {m : BootM Bool} (h : NoCommit m) : NoCommit (withWindow start stop m) :=
  NoCommit.sequenced.getRam fun _ => NoCommit.sequenced.bind (.modify fun _ => rfl) fun _ =>
    NoCommit.sequenced.bind h fun _ => NoCommit.sequenced.bind (.modify fun _ => rfl) fun _ =>
    NoCommit.sequenced.pure _

end FlashDriver

namespace BootFlash

variable {address size : Nat} {data : Nat → Byte}

theorem lt_journal_of_valid {f : State} (h : isRangeValid f address size = true) :
    address + size ≤ journalCopy0Address ∧ address < journalCopy0Address := by
  unfold isRangeValid at h
  simp only [Bool.and_eq_true] at h
  obtain ⟨t, ht⟩ := Option.isSome_iff_exists.1 h.1.2
  rw [ht] at h
  obtain ⟨hsize, -, hhi⟩ := containsRange_iff.1 h.2
  have hend := t.header_lt_journal
  omega

theorem noCommit_erase : NoCommit (erase address size) :=
  .of_issues (Q := fun b _ b' => ∃ d, b' = b.setDev d ∧ SameOutside address size b.mem d.mem)
    fun _ => issues_erase fun _ hvalid => .inr (lt_journal_of_valid hvalid).2

theorem noCommit_program : NoCommit (program address data size) :=
  NoCommit.sequenced.getRam fun _ => NoCommit.sequenced.ite (NoCommit.sequenced.pure _)
    FlashDriver.noCommit_program

theorem noCommit_configureSlots {active target : SlotId} : NoCommit (configureSlots active target) := by
  have hset : ∀ g, NoCommit (BootM.setFlash g) := fun g => .modify fun _ => rfl
  have hinit : NoCommit (FlashDriver.init active target) := by
    apply NoCommit.sequenced.bind (hset _)
    intro _
    cases target with
    | none => exact NoCommit.sequenced.pure _
    | some t => exact NoCommit.sequenced.ite (NoCommit.sequenced.pure _) <|
        NoCommit.sequenced.bind (hset _) fun _ => NoCommit.sequenced.pure _
  exact NoCommit.sequenced.bind (hset _) fun _ => NoCommit.sequenced.getRam fun _ =>
    NoCommit.sequenced.ite (NoCommit.sequenced.pure _) <| NoCommit.sequenced.bind hinit fun _ =>
    NoCommit.sequenced.ite (NoCommit.sequenced.pure _) <| NoCommit.sequenced.bind (hset _) fun _ =>
    NoCommit.sequenced.pure _

end BootFlash

theorem BootIsoTp.noCommit_transmit : NoCommit transmit := fun _ => rfl

/-! ## The journal -/

namespace BootJournalStorage

variable {k : Fin 2} {offset size : Nat} {data : Nat → Byte}

theorem noCommit_program : NoCommit (program k offset data size) :=
  NoCommit.sequenced.getRam fun _ => NoCommit.sequenced.ite (NoCommit.sequenced.pure _) <|
    NoCommit.sequenced.ite (NoCommit.sequenced.pure _) <|
    FlashDriver.noCommit_withWindow FlashDriver.noCommit_program

/-- The erasure of a copy is a commit. -/
theorem commits_erase : Commits (· = true) 1 (erase k) := by
  have hsector : Commits (· = true) 1
      (FlashDriver.erase (FlashDriver.journalAddress k) flashSectorSize) := by
    intro b
    apply FlashDriver.ensures_erase_log.mono
    intro ok b' h hok
    obtain ⟨mem, hlog⟩ := h hok
    have hrange := View.journalAddress_range k
    have hcommit : isCommit (.command (.erase (FlashDriver.journalAddress k) flashSectorSize) mem) =
        true := decide_eq_true ⟨hrange.1, Nat.lt_of_lt_of_le (Nat.lt_add_of_pos_right (by decide))
          hrange.2⟩
    unfold Board.commits
    rw [hlog, List.countP_cons_of_pos hcommit]
  exact .getRam fun _ => .ite (fun _ => .refused (by decide)) fun _ =>
    FlashDriver.commits_withWindow hsector

end BootJournalStorage

namespace BootJournal

variable {k : Fin 2} {next record : BootUpdateJournal}

theorem noCommit_programPhrases {data : Nat → Byte} {offset n : Nat} :
    NoCommit (programPhrases BootJournalStorage.port k data offset n) := by
  induction n generalizing offset with
  | zero => exact NoCommit.sequenced.pure _
  | succ n ih => exact NoCommit.sequenced.bind BootJournalStorage.noCommit_program fun _ =>
      NoCommit.sequenced.ite ih (NoCommit.sequenced.pure _)

theorem commits_writeCopy : Commits (fun res => Option.isSome res = true) 1
    (writeCopy recordFormat BootJournalStorage.port k next) := by
  have hnone : ∀ b, Ensures (pure none : BootM (Option BootUpdateJournal))
      (fun res _ => ¬ res.isSome = true) b := fun _ => .pure (by decide)
  have hrest : NoCommit (do
      if !(← programPhrases BootJournalStorage.port k (recordFormat.encode next) 0
        (recordFormat.size / BootJournalStorage.port.phrase)) then return none
      let s ← CrashM.get
      let readback := recordFormat.decode fun i =>
        (BootJournalStorage.port.dev s).mem (BootJournalStorage.port.base k + i)
      if recordFormat.valid readback && recordFormat.equal next readback then return some readback
      return none) := by
    apply NoCommit.sequenced.bind noCommit_programPhrases
    intro ok
    apply NoCommit.sequenced.ite (NoCommit.sequenced.pure _)
    apply NoCommit.sequenced.read
    intro b
    exact NoCommit.sequenced.ite (NoCommit.sequenced.pure _) (NoCommit.sequenced.pure _)
  unfold writeCopy
  refine .ite (fun _ => .refused (by decide)) fun _ => ?_
  exact .guard BootJournalStorage.commits_erase hnone (.of_quiet hrest)

theorem commits_commit : Commits (fun res => Option.isSome res = true) 1 (commit record) := by
  apply Commits.flash
  intro mem
  split
  · exact .ite (fun _ => .refused (by decide)) fun _ => commits_writeCopy
  · exact .ite (fun _ => .refused (by decide)) fun _ => commits_writeCopy

end BootJournal

namespace BootUpdate

variable {next : BootUpdateJournal} {b : Board}

theorem commits_save : Commits (· = true) 1 (save next) := by
  apply Commits.getRam
  intro ram
  refine .ite (fun _ => .refused (by decide)) fun _ b => ?_
  apply (BootJournal.commits_commit b).bind
  intro res b' h
  cases res with
  | none => exact .skip fun _ _ => .pure fun hf => by cases hf
  | some n =>
    rw [Ensures.bind_setUpdate]
    exact .pure fun _ => h rfl

theorem commits_setState {state : BootUpdateState} : Commits (· = true) 1 (setState state) :=
  .getRam fun _ => .ite (fun _ => .refused (by decide)) fun _ => commits_save

theorem commits_beginUpdate {active target : SlotId} {size : Nat} :
    Commits (· = true) 1 (beginUpdate active target size) := by
  have hfalse : ∀ b, Ensures (pure false : BootM Bool) (fun ok _ => ¬ ok = true) b :=
    fun _ => .pure (by decide)
  have hrest : NoCommit (do
      BootM.setUpdate fun u => { u with targetRevalidated := false }
      return true : BootM Bool) :=
    NoCommit.sequenced.bind (.modify fun _ => rfl) fun _ => NoCommit.sequenced.pure _
  apply Commits.getRam
  intro ram
  refine .ite (fun _ => .refused (by decide)) fun _ => ?_
  exact .guard commits_save hfalse (.of_quiet hrest)

end BootUpdate

/-! ## The erase routine -/

namespace BootProgramming

variable {address size : Nat}

theorem noCommit_eraseLoop {header current n : Nat} :
    Commits (· = (0 : Byte)) 0 (eraseLoop header current n) := by
  induction n generalizing current with
  | zero => exact .of_quiet (NoCommit.sequenced.pure _)
  | succ n ih =>
    have hrefuse : ∀ b, Ensures (do let _ ← BootUpdate.abort .eraseFailed; return (0x72 : Byte))
        (fun r _ => ¬ r = 0) b := fun _ => .skip fun _ _ => .pure (by decide)
    unfold eraseLoop
    refine .ite (fun _ => ih) fun _ => ?_
    apply Commits.quiet BootIsoTp.noCommit_transmit
    intro ok
    refine .ite (fun _ => .refused (by decide)) fun _ => ?_
    exact .guard (.of_quiet BootFlash.noCommit_erase) hrefuse ih

/-- PREPARING, ERASING and DOWNLOAD_READY are committed. -/
theorem commits_erase : Commits (· = (0 : Byte)) 3 (erase address size) := by
  have hrefuse : ∀ b, Ensures (pure (0x72 : Byte) : BootM Byte) (fun r _ => ¬ r = 0) b :=
    fun _ => .pure (by decide)
  have hgiveUp : ∀ b, Ensures (do let _ ← BootUpdate.abort .eraseFailed; return (0x72 : Byte))
      (fun r _ => ¬ r = 0) b := fun _ => .skip fun _ _ => .pure (by decide)
  have hset : NoCommit (do
      BootM.setProgramming fun c =>
        { c with targetAddress := address, targetSize := size, eraseComplete := true }
      return (0 : Byte)) := by
    apply NoCommit.sequenced.bind
    · exact .modify fun _ => rfl
    · exact fun _ => NoCommit.sequenced.pure _
  have htarget : ∀ active target, Commits (· = (0 : Byte)) 3
      (eraseTarget active target address size) := by
    intro active target
    unfold eraseTarget
    dsimp only
    apply Commits.guard BootUpdate.commits_beginUpdate hrefuse
    apply Commits.guard BootUpdate.commits_setState hrefuse
    apply Commits.guard (.of_quiet BootFlash.noCommit_erase) hgiveUp
    apply Commits.guard (.of_quiet BootFlash.noCommit_program) hgiveUp
    intro b
    apply (noCommit_eraseLoop b).bind
    intro r b' h
    refine .ite (fun hr => .pure fun h0 => absurd h0 hr) fun hr => ?_
    apply (Commits.guard BootUpdate.commits_setState hrefuse (.of_quiet hset) b').mono
    intro r' b'' h' hr'
    rw [h' hr', h (not_not.1 hr)]
  apply Commits.getRam
  intro ram
  refine .ite (fun h => .refused h) fun _ => .ite (fun _ => .refused (by decide)) fun _ =>
    .ite (fun _ => .refused (by decide)) fun _ => .ite (fun _ => .refused (by decide)) fun _ => ?_
  apply Commits.quiet
  · exact .modify fun _ => rfl
  intro _
  apply Commits.quiet BootFlash.noCommit_configureSlots
  intro ok
  refine .ite (fun _ => .refused (by decide)) fun _ => ?_
  apply Commits.quiet BootIsoTp.noCommit_transmit
  intro ok
  exact .ite (fun _ => .refused (by decide)) fun _ => htarget _ _

end BootProgramming
