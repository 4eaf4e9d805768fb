import BootloaderV2.JournalSpec

/-!
# The journal is an atomic durable register

A run of `BootJournal_Commit` calls, each with its own board around the same flash and its own fates
for the flash commands.  A call may be cut in any command; `current` is the record of the last call
whose final phrase got onto flash completely.
-/

open BootConfig NorFlash CrashM TwoCopy

namespace BootJournal

/-- A call of the journal: its record and the board it runs on, the flash aside. -/
structure RecordCall where
  record : BootUpdateJournal
  fates : List Fate
  ram : Ram
  retained : RetainedRecord
  hw : Hardware

namespace RecordCall

def board (c : RecordCall) (mem : Nat → Byte) : Board :=
  ⟨⟨mem, c.fates, []⟩, c.ram, c.retained, c.hw⟩

def commit (c : RecordCall) (mem : Nat → Byte) : Outcome Board (Option BootUpdateJournal) :=
  BootJournal.commit c.record (c.board mem)

def initializeStore (c : RecordCall) (mem : Nat → Byte) :
    Outcome Board (Option BootUpdateJournal) :=
  BootJournal.initializeStore c.record (c.board mem)

end RecordCall

def finalPhraseOffset : Nat := journalRecordSize - flashPhraseSize

/-- The last command programmed the final phrase of a copy, and all its bytes are there. -/
def finalPhraseDone (d : Device Note) : Bool :=
  match d.log with
  | .command (.program address size data) mem :: _ =>
    (address == FlashDriver.journalAddress 0 + finalPhraseOffset ||
      address == FlashDriver.journalAddress 1 + finalPhraseOffset) &&
      decide (∀ i, i < size → mem (address + i) = data i)
  | _ => false

/-- The flash between calls and the record of the last call that reached its end. -/
structure History where
  mem : Nat → Byte
  current : BootUpdateJournal

/-- The record that a call after `h` commits. -/
def History.next (h : History) (c : RecordCall) : BootUpdateJournal :=
  completed (h.current.sequence + 1) c.record

def History.step (h : History) (c : RecordCall) : History :=
  let d := (c.commit h.mem).state.dev
  ⟨d.mem, if finalPhraseDone d then h.next c else h.current⟩

/-- The journal's current record is `h.current`. -/
def History.Holds (h : History) : Prop := ∃ k, loadLatest h.mem = .valid k h.current

/-- The command stays out of the sector of copy `k`. -/
def Avoids (c : Command) (k : Fin 2) : Prop :=
  c.address + c.size ≤ FlashDriver.journalAddress k ∨
    FlashDriver.journalAddress k + flashSectorSize ≤ c.address

theorem avoids_of_range {c : Command} {k : Fin 2}
    (h : FlashDriver.journalAddress (1 - k) ≤ c.address ∧
      c.address + c.size ≤ FlashDriver.journalAddress (1 - k) + flashSectorSize) : Avoids c k := by
  rcases BootJournalStorage.port.apart k with ha | ha
  · exact .inr (le_trans ha h.1)
  · exact .inl (le_trans h.2 ha)

/-- A write that has not reached the end leaves an erased last byte, and only there is one. -/
theorem written_unique {k : Fin 2} {next : BootUpdateJournal} {m₀ m : Nat → Byte} {p : Nat}
    (hv : validate next = true)
    (h : BootJournalStorage.port.Written recordFormat k next m₀ p m)
    (hs : BootJournalStorage.port.Written recordFormat k next m₀ recordFormat.size m) :
    recordFormat.size ≤ p := by
  by_contra hp
  refine recordFormat.encode_last next hv ?_
  rw [← h.torn.last (by omega)]
  exact (hs.torn.complete _ (by decide)).symm

/-- The log tells whether the write of a record reached its end. -/
theorem finalPhraseDone_iff {d d' : Device Note} {k : Fin 2} {next : BootUpdateJournal}
    (hlog : d.log = []) (hv : validate next = true)
    (hnew : ¬ BootJournalStorage.port.Written recordFormat k next d.mem recordFormat.size d.mem)
    (hev : Evolves (WriteStep k next d.mem) d d') :
    finalPhraseDone d' = true ↔
      BootJournalStorage.port.Written recordFormat k next d.mem recordFormat.size d'.mem := by
  have h8 : BootJournalStorage.port.phrase = 8 := rfl
  have h128 : recordFormat.size = 128 := rfl
  have hlast : recordFormat.encode next 127 ≠ 0xFF := recordFormat.encode_last next hv
  rcases hev.last with rfl | ⟨c, n, e, -, hR, rfl⟩
  · refine ⟨fun h => ?_, fun h => absurd h hnew⟩
    rw [finalPhraseDone, hlog] at h
    cases h
  rw [finalPhraseDone, Device.after_log, Device.after_mem]
  generalize c.effect n e.mem = m' at hR ⊢
  generalize e.mem = m at hR
  cases hR with
  | erase _ h =>
    refine ⟨fun h => (by cases h), fun hw => ?_⟩
    rcases h with rfl | h
    · exact absurd hw hnew
    · have := written_unique hv h hw
      omega
  | program p q _ _ hdvd hp hpq hq hw hw' =>
    have hbase : BootJournalStorage.port.base k = FlashDriver.journalAddress k := rfl
    have hoff : finalPhraseOffset = 120 := rfl
    simp only [h8, hbase, hoff, Bool.and_eq_true, Bool.or_eq_true, beq_iff_eq,
      decide_eq_true_eq]
    constructor
    · rintro ⟨haddr, hdata⟩
      -- the phrase is the final one, and its last byte is on flash
      have hp120 : p = 120 := by
        have hk : FlashDriver.journalAddress k = FlashDriver.journalAddress 0 ∨
            FlashDriver.journalAddress k = FlashDriver.journalAddress 1 := by
          rcases eq_zero_or_one k with rfl | rfl
          · exact .inl rfl
          · exact .inr rfl
        have h01 : FlashDriver.journalAddress 1 = FlashDriver.journalAddress 0 + 4096 := by decide
        omega
      have hq128 : q = 128 := by
        by_contra hne
        apply hlast
        have hbyte := hw'.torn 127 (by omega)
        rw [if_neg (by omega)] at hbyte
        have h7 := hdata 7 (by omega)
        rw [hp120] at h7
        rw [← hbyte]
        exact h7.symm
      rw [h128, ← hq128]
      exact hw'
    · intro hs
      have hq128 : q = 128 := by
        have := written_unique hv hw' hs
        omega
      have hp120 : p = 120 := by
        rw [h8] at hdvd
        omega
      refine ⟨?_, fun i hi => ?_⟩
      · rw [hp120]
        rcases eq_zero_or_one k with rfl | rfl
        · exact .inl rfl
        · exact .inr rfl
      · rw [Nat.add_assoc]
        exact hs.torn.complete _ (by omega)

/-- What a call does to a journal whose current record is `h.current`. -/
theorem commit_spec (h : History) (hh : h.Holds) (c : RecordCall) :
    (h.step c).Holds ∧
    (∀ r b, c.commit h.mem = .done (some r) b → r = h.next c ∧ (h.step c).current = r) ∧
    Evolves (fun cmd m _ => ∃ k, loadLatest m = .valid k h.current ∧ Avoids cmd k)
      (c.board h.mem).dev (c.commit h.mem).state.dev := by
  obtain ⟨k, hl⟩ := hh
  -- a refused call changes nothing
  have hrefused : wp (BootJournal.commit c.record)
      (fun res b => res = none ∧ b = c.board h.mem) (fun _ => False) (c.board h.mem) →
      (h.step c).Holds ∧
      (∀ r b, c.commit h.mem = .done (some r) b → r = h.next c ∧ (h.step c).current = r) ∧
      Evolves (fun cmd m _ => ∃ k, loadLatest m = .valid k h.current ∧ Avoids cmd k)
        (c.board h.mem).dev (c.commit h.mem).state.dev := by
    intro hwp
    obtain ⟨res, b, hdone, rfl, rfl⟩ := wp_done hwp
    have hrun : c.commit h.mem = .done none (c.board h.mem) := hdone
    have hstep : h.step c = h := by
      simp only [History.step, hrun, Outcome.state]
      rfl
    rw [hstep, hrun]
    exact ⟨⟨k, hl⟩, fun r b hb => (by cases hb), .refl _⟩
  by_cases hready : c.ram.flash.ready = true
  swap
  · refine hrefused ?_
    rw [Bool.not_eq_true] at hready
    unfold BootJournal.commit commitRecord
    rw [wp_bind, BootM.wp_flash]
    have hl' : loadLatest (c.board h.mem).mem = .valid k h.current := hl
    rw [hl']
    dsimp only
    rw [if_neg (by decide)]
    exact writeCopy_unready (BootJournalStorage.erase_unready hready) ⟨rfl, rfl⟩
  by_cases hwf : WellFormed c.record
  swap
  · exact hrefused (wp_commit_refused (.inl hwf) ⟨rfl, rfl⟩)
  have hv : validate (h.next c) = true := validate_completed _ hwf
  have hnew : ¬ BootJournalStorage.port.Written recordFormat (1 - k) (h.next c) h.mem
      recordFormat.size h.mem := by
    intro hw
    have hload := ((hw.register recordFormat_size_le hl rfl hv (le_refl _)).2 rfl).1
    exact ne_other k (Loaded.valid.inj (hl.symm.trans hload)).1
  -- the selection after a run of commands that stopped at some stage
  have hselect : ∀ d : Device Note, Evolves (WriteStep (1 - k) (h.next c) h.mem)
      (c.board h.mem).dev d → Stage (1 - k) (h.next c) h.mem d.mem →
      ∃ j, loadLatest d.mem =
        .valid j (if finalPhraseDone d then h.next c else h.current) := by
    intro d hev hstage
    have hiff := finalPhraseDone_iff (d := (c.board h.mem).dev) rfl hv hnew hev
    by_cases hd : finalPhraseDone d = true
    · rw [if_pos hd]
      exact ⟨_, (((hiff.1 hd).register recordFormat_size_le hl rfl hv (le_refl _)).2 rfl).1⟩
    · rw [if_neg hd]
      rcases hstage with hsame | ⟨p, hp, hw⟩
      · exact ⟨k, by rw [hsame]; exact hl⟩
      · refine ⟨k, ((hw.register recordFormat_size_le hl rfl hv hp).1 ?_).1⟩
        refine lt_of_le_of_ne hp ?_
        rintro rfl
        exact hd (hiff.2 hw)
  have havoid : ∀ d : Device Note, Evolves (WriteStep (1 - k) (h.next c) h.mem)
      (c.board h.mem).dev d →
      Evolves (fun cmd m _ => ∃ k, loadLatest m = .valid k h.current ∧ Avoids cmd k)
        (c.board h.mem).dev d :=
    fun d hev => hev.mono fun cmd m m' hstep =>
      ⟨k, (hstep.register recordFormat_size_le hl rfl hv).2,
        avoids_of_range (hstep.range recordFormat_size_le)⟩
  have hspec := wp_commit (b := c.board h.mem) hready hl hwf
  unfold History.step History.Holds
  dsimp only
  cases hrun : c.commit h.mem with
  | done res b =>
    obtain ⟨d, rfl, hw⟩ := wp_of_eq_done hspec hrun
    refine ⟨hselect _ hw.evolves hw.stage, fun r b' hb => ?_, havoid _ hw.evolves⟩
    cases hb
    obtain ⟨rfl, hload, -⟩ := hw.stored r rfl
    refine ⟨rfl, ?_⟩
    obtain ⟨j, hj⟩ := hselect _ hw.evolves hw.stage
    exact (Loaded.valid.inj (hj.symm.trans hload)).2
  | cut b =>
    obtain ⟨hev, hstage, -⟩ := wp_of_eq_cut hspec hrun
    exact ⟨hselect _ hev hstage, fun r b' hb => (by cases hb), havoid _ hev⟩

/-- A successful first write makes its record the current one. -/
theorem holds_of_initializeStore {mem₀ : Nat → Byte} {start : RecordCall} {b : Board}
    {r₀ : BootUpdateJournal} (hinvalid : ∀ k, validate (.ofBytes (copies mem₀ k)) = false)
    (hstart : start.initializeStore mem₀ = .done (some r₀) b) : History.Holds ⟨b.mem, r₀⟩ := by
  have hu : (register (start.board mem₀).mem).Unset :=
    Format.register_of_copies (F := recordFormat) fun k => recordFormat.copy_eq_none.2 (hinvalid k)
  -- a write that is refused returns nothing
  have hrefused : ¬ wp (writeCopy recordFormat BootJournalStorage.port 0 (completed 1 start.record))
      (fun res _ => res = none) (fun _ => True) (start.board mem₀) := by
    intro hwp
    cases wp_of_eq_done (initializeStore_unset hu hwp) hstart
  have hready : (start.board mem₀).ram.flash.ready = true := by
    by_contra h
    exact hrefused (writeCopy_unready (BootJournalStorage.erase_unready (by simpa using h)) rfl)
  have hwf : WellFormed start.record := by
    by_contra h
    refine hrefused (writeCopy_invalid ?_ rfl)
    rw [← Bool.not_eq_true]
    exact fun hv => h (wellFormed_of_completed hv)
  obtain ⟨d, rfl, hw⟩ := wp_of_eq_done (wp_initializeStore hready hu hwf) hstart
  obtain ⟨rfl, hreg⟩ := hw.stored r₀ rfl
  obtain ⟨k, hk, -⟩ := recordFormat.load_of_register hreg
  exact ⟨k, hk⟩

/-- The journal is an atomic register over every run of commits: it always has a current record,
    which is that of the last commit whose final phrase got onto flash; a commit that reports
    success has made its record the current one; and no command touches the current copy. -/
theorem commit_atomic {mem₀ : Nat → Byte} {start : RecordCall} {b : Board}
    {r₀ : BootUpdateJournal} (hinvalid : ∀ k, validate (.ofBytes (copies mem₀ k)) = false)
    (hstart : start.initializeStore mem₀ = .done (some r₀) b) (calls : List RecordCall) :
    let h := calls.foldl History.step ⟨b.mem, r₀⟩
    (∃ k, loadLatest h.mem = .valid k h.current) ∧
    ∀ c : RecordCall,
      (∃ k, loadLatest (h.step c).mem = .valid k (h.step c).current) ∧
      ((h.step c).current = h.current ∨ (h.step c).current = h.next c) ∧
      (∀ r b', c.commit h.mem = .done (some r) b' → r = h.next c ∧ (h.step c).current = r) ∧
      Evolves (fun cmd m _ => ∃ k, loadLatest m = .valid k h.current ∧ Avoids cmd k)
        (c.board h.mem).dev (c.commit h.mem).state.dev := by
  intro h
  have hfirst : History.Holds ⟨b.mem, r₀⟩ := holds_of_initializeStore hinvalid hstart
  have hrun : h.Holds := by
    have hgen : ∀ (cs : List RecordCall) (h₀ : History), h₀.Holds →
        (cs.foldl History.step h₀).Holds := by
      intro cs
      induction cs with
      | nil => exact fun _ hh => hh
      | cons c cs ih => exact fun h₀ hh => ih _ (commit_spec h₀ hh c).1
    exact hgen calls _ hfirst
  refine ⟨hrun, fun c => ?_⟩
  obtain ⟨hholds, hdone, havoid⟩ := commit_spec h hrun c
  refine ⟨hholds, ?_, hdone, havoid⟩
  simp only [History.step]
  split
  · exact .inr rfl
  · exact .inl rfl

/-- The record of a journal whose active slot is A, in state IDLE. -/
def idleRecord : BootUpdateJournal := { BootUpdateJournal.zero with targetSlot := Slot.b.code }

theorem idleRecord_wellFormed : WellFormed idleRecord := by
  refine ⟨by decide, by decide, ⟨some .a, rfl⟩, ⟨.b, rfl⟩, by decide, by decide, by decide,
    by decide, by decide, ?_, ?_⟩
  · intro h
    exact absurd h (by decide)
  · intro h
    exact absurd h (by decide)

def idleCall (fates : List Fate) : RecordCall :=
  ⟨idleRecord, fates, Ram.driverReady, ⟨0, 0, 0, 0⟩, Hardware.powerOn⟩

theorem erased_invalid (k : Fin 2) : validate (.ofBytes (copies (fun _ => 0xFF) k)) = false :=
  recordFormat.copy_eq_none.1 (recordFormat.copy_torn rfl)

/-- Without faults and cuts a journal without a valid copy can be started. -/
theorem initializeStore_done {b : Board} {r : BootUpdateJournal}
    (hready : b.ram.flash.ready = true) (hu : (register b.mem).Unset) (hwf : WellFormed r)
    (hf : b.dev.Faultless) (hc : b.dev.Uncut) :
    ∃ r' b', BootJournal.initializeStore r b = .done (some r') b' := by
  have hspec := wp_initializeStore hready hu hwf
  obtain ⟨res, b', hrun, d, -, hw⟩ := wp_done (wp_mono hspec (fun _ _ h => h) fun _ h => h.2.2 hc)
  cases res with
  | none => exact absurd hf (hw.fault rfl)
  | some r' => exact ⟨r', b', hrun⟩

/-- A journal started on erased flash, then a commit that is cut in its last phrase. -/
theorem commit_atomic_cut :
    ∃ r₀ b, (idleCall []).initializeStore (fun _ => 0xFF) = .done (some r₀) b ∧
      ∃ k, loadLatest ([idleCall (List.replicate 16 .ok ++ [.cut 7])].foldl History.step
        ⟨b.mem, r₀⟩).mem = .valid k ([idleCall (List.replicate 16 .ok ++ [.cut 7])].foldl
          History.step ⟨b.mem, r₀⟩).current := by
  have hu : (register ((idleCall []).board fun _ => 0xFF).mem).Unset :=
    Format.register_of_copies (F := recordFormat) fun k =>
      recordFormat.copy_eq_none.2 (erased_invalid k)
  obtain ⟨r₀, b, hrun⟩ := initializeStore_done (b := (idleCall []).board fun _ => 0xFF) rfl hu
    idleRecord_wellFormed (fun n hn => by cases hn) fun n hn => by cases hn
  have hstart : (idleCall []).initializeStore (fun _ => 0xFF) = .done (some r₀) b := hrun
  have hatomic := commit_atomic erased_invalid hstart
    [idleCall (List.replicate 16 .ok ++ [.cut 7])]
  exact ⟨r₀, b, hstart, hatomic.1⟩

end BootJournal
