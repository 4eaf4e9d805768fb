import BootloaderV2.Resets

/-!
# Reset records are used once

The reason that a boot reports comes from a FAULT or NORMALIZE record of the retained block only if
the record was stored since the reset before.  That holds in exactly the runs in which every boot that
finds such a record comes to overwrite it: a boot that ends in the programming server does not.
-/

open BootConfig NorFlash CrashM

namespace Resets

open BootResetReason (recorded decoded)

/-- The boot a reset has started reports the reason of a record stored since the reset before, or
    decodes its reset flags. -/
def Consumed (s : System) : Prop :=
  match recorded s.board.retained with
  | none => BootResetReason.capture s.board = decoded s.board.hw.srs
  | some reason =>
    BootResetReason.capture s.board = reason ∧ s.announced = some s.board.retained.magic

def Event.IsReset : Event → Prop
  | .reset _ _ _ => True
  | _ => False

/-- What the boot found has been overwritten: by the handover to the application, or by the record
    that normalises the start. -/
def Phase.settled : Phase → Bool
  | .launch _ | .refused | .application _ | .normalizing | .leaving | .storing _ .leaving => true
  | _ => false

/-- No reset ends a boot that has found a reason before it has begun to overwrite the record. -/
def Meets (e : Event) (s : System) : Prop :=
  match e with
  | .reset _ _ stores => s.found = none ∨ s.phase.settled = true ∨
      (0 < stores ∧ ∃ record next, s.phase = .storing record next)
  | _ => True

/-! ## Records -/

theorem reasonMagic_of_recorded {r : RetainedRecord} (h : (recorded r).isSome = true) :
    reasonMagic r = some r.magic := by
  have hretained : ∀ magic, (BootResetReason.retainedData r magic).isSome = true →
      r.magic = magic := by
    intro magic hsome
    unfold BootResetReason.retainedData at hsome
    split at hsome
    · cases hsome
    · rename_i hno
      rw [not_or, not_not] at hno
      exact hno.1
  apply if_pos
  unfold recorded at h
  split at h
  · rename_i hfault
    exact .inl (hretained _ hfault)
  · right
    apply hretained
    cases hdata : BootResetReason.retainedData r normalizeMagic with
    | some data => rfl
    | none =>
      rw [hdata] at h
      cases h

theorem recorded_eq_none {r : RetainedRecord} (hfault : r.magic ≠ faultMagic)
    (hnormalize : r.magic ≠ normalizeMagic) : recorded r = none := by
  by_contra hsome
  have hmagic := reasonMagic_of_recorded (Option.isSome_iff_ne_none.2 hsome)
  unfold reasonMagic at hmagic
  rw [if_neg (by simp [hfault, hnormalize])] at hmagic
  cases hmagic

theorem recorded_of_request {b : Board} {magic : Word}
    (h : BootRequest.retainedRequest b magic = true) (hfault : magic ≠ faultMagic)
    (hnormalize : magic ≠ normalizeMagic) : recorded b.retained = none := by
  unfold BootRequest.retainedRequest at h
  simp only [Bool.and_eq_true, beq_iff_eq] at h
  have hmagic : b.retained.magic = magic := h.1.1.2
  exact recorded_eq_none (hmagic ▸ hfault) (hmagic ▸ hnormalize)

variable {s : System} {record : RetainedRecord} {next : Phase}

theorem block_storing (h : s.phase = .storing record next) (n : Nat) :
    s.block n = record.stored s.board.retained n := by
  unfold System.block
  rw [h]

/-- The first store already replaces the magic word. -/
theorem written_of_stores {n : Nat} (hn : 0 < n) (h : s.phase = .storing record next)
    (hsome : (recorded (s.block n)).isSome = true) : s.writtenAt n = some (s.block n).magic := by
  have hmagic := reasonMagic_of_recorded hsome
  have hstored : (s.block n).magic = record.magic := by
    rw [block_storing h]
    exact if_pos hn
  have hrecord : reasonMagic record = some (s.block n).magic := by
    rw [← hmagic]
    unfold reasonMagic
    rw [hstored]
  unfold System.writtenAt
  rw [h]
  dsimp only
  rw [if_pos hn, hrecord]
  rfl

/-- Before the first store nothing has changed. -/
theorem block_zero : s.block 0 = s.board.retained ∧ s.writtenAt 0 = s.written := by
  unfold System.block System.writtenAt
  split
  · exact ⟨rfl, rfl⟩
  · exact ⟨rfl, rfl⟩

theorem block_of_not_storing (h : ∀ record next, s.phase ≠ .storing record next) (n : Nat) :
    s.block n = s.board.retained ∧ s.writtenAt n = s.written := by
  unfold System.block System.writtenAt
  split
  · rename_i record next hphase
    exact absurd hphase (h record next)
  · exact ⟨rfl, rfl⟩

/-! ## Between two resets -/

/-- What is stored on the way fits to what the boot has found: a request that is cleared was no
    reason. -/
def Fits (found : Option BootResetReason) : Phase → Prop
  | .storing record next =>
    (next.settled = false → record = .cleared ∧ found = none) ∧ Fits found next
  | .captureSlot true _ => found = none
  | _ => True

/-- Until what the boot found is overwritten the block holds it; a reason in the block afterwards has
    been stored since the reset. -/
structure Tracks (s : System) : Prop where
  fits : Fits s.found s.phase
  pending : s.phase.settled = false → recorded s.board.retained = s.found ∧ s.written = none
  settled : s.phase.settled = true → (recorded s.board.retained).isSome = true →
    s.written = some s.board.retained.magic

namespace Tracks

theorem boot (hw : Hardware) (fates : List Fate) (stores : Nat) :
    Tracks (boot hw fates stores s) where
  fits := trivial
  pending _ := ⟨rfl, rfl⟩
  settled h := by cases h

theorem start (b : Board) : Tracks (start b) where
  fits := trivial
  pending _ := ⟨rfl, rfl⟩
  settled h := by cases h

/-- The next phase, with the block as it is. -/
theorem withPhase (h : Tracks s) (hfits : Fits s.found next)
    (hsame : next.settled = s.phase.settled) : Tracks { s with phase := next } where
  fits := hfits
  pending hno := h.pending (hsame.symm.trans hno)
  settled hyes := h.settled (hsame.symm.trans hyes)

/-- A program that leaves the block alone. -/
theorem runs {α : Type} {m : BootM α} {b : Board} {after : α → Board → Phase} (h : Tracks s)
    (hs : s.phase.settled = false) (hm : KeepsRetained m) (hb : b.retained = s.board.retained)
    (hafter : ∀ a b', (after a b').settled = false ∧ Fits s.found (after a b')) :
    Tracks (s.runs m b after) := by
  have hblock := (hm.state b).trans hb
  have hpending := h.pending hs
  unfold System.runs
  cases hrun : m b with
  | done a b' =>
    rw [hrun] at hblock
    have hkept : b'.retained = s.board.retained := hblock
    exact ⟨(hafter a b').2, fun _ => ⟨hkept ▸ hpending.1, hpending.2⟩,
      fun hyes => absurd (hyes.symm.trans (hafter a b').1) (by decide)⟩
  | cut b' =>
    rw [hrun] at hblock
    have hkept : b'.retained = s.board.retained := hblock
    exact ⟨trivial, fun _ => ⟨hkept ▸ hpending.1, hpending.2⟩, fun hyes => by cases hyes⟩

/-- The four stores of a record. -/
theorem stores (h : Tracks s) (hphase : s.phase = .storing record next) :
    Tracks { s with
      board := { s.board with retained := s.block 4 }
      phase := next
      written := s.writtenAt 4 } := by
  have hfits := h.fits
  rw [hphase] at hfits
  refine ⟨hfits.2, fun hno => ?_, fun _ => written_of_stores (by decide) hphase⟩
  -- a request is cleared
  obtain ⟨rfl, hnone⟩ := hfits.1 hno
  have hunsettled : s.phase.settled = false := by
    rw [hphase]
    cases next <;> first | rfl | exact hno
  have hwritten := (h.pending hunsettled).2
  refine ⟨?_, ?_⟩
  · show recorded (s.block 4) = s.found
    rw [block_storing hphase, hnone]
    rfl
  · show s.writtenAt 4 = none
    unfold System.writtenAt
    rw [hphase, hwritten]
    rfl

/-- A state of the boot whose program leaves the block alone. -/
theorem passes {α : Type} {m : BootM α} {after : α → Board → Phase} (h : Tracks s)
    (hs : s.phase.settled = false) (hm : KeepsRetained m)
    (hafter : ∀ a b', (after a b').settled = false ∧ Fits s.found (after a b')) :
    Tracks (s.runs m s.board after) :=
  h.runs hs hm rfl hafter

theorem advance (h : Tracks s) : Tracks (advance s) := by
  have hmanaged := KeepsRetained.managed
  have hkept : ∀ {p}, s.phase = p → p.settled = false → s.phase.settled = false :=
    fun hphase hp => by rw [hphase, hp]
  unfold Resets.advance
  cases hphase : s.phase with
  | init =>
    exact h.passes (hkept hphase rfl) BootManager.keepsRetained_init fun _ _ => ⟨rfl, trivial⟩
  | checkRequest =>
    have hfound := (h.pending (hkept hphase rfl)).1
    have hsoftware : Fits s.found (.captureSlot
        (BootRequest.retainedRequest s.board requestMagic) s.board.hw.requestPin) := by
      cases hrequest : BootRequest.retainedRequest s.board requestMagic with
      | true => exact hfound.symm.trans (recorded_of_request hrequest (by decide) (by decide))
      | false => exact trivial
    dsimp only
    split
    · rename_i slot hslot
      -- neither request is a reason
      have hconfirm : BootRequest.retainedRequest s.board confirmMagic = true := by
        by_contra hno
        rw [if_neg hno] at hslot
        cases hslot
      have hnone := recorded_of_request hconfirm (by decide) (by decide)
      exact h.passes (hkept hphase rfl) (hmanaged.confirm slot)
        fun _ _ => ⟨rfl, fun _ => ⟨rfl, hfound.symm.trans hnone⟩, hsoftware⟩
    · exact h.withPhase hsoftware (hkept hphase rfl).symm
  | captureSlot softwareRequest hardwareRequest =>
    have hfits := h.fits
    rw [hphase] at hfits
    apply h.passes (hkept hphase rfl) (BootManager.managed_captureActiveSlot hmanaged)
    intro _ _
    cases softwareRequest with
    | true => exact ⟨rfl, fun _ => ⟨rfl, hfits⟩, trivial⟩
    | false => cases hardwareRequest <;> exact ⟨rfl, trivial⟩
  | checkApp =>
    apply h.passes (hkept hphase rfl) (BootManager.managed_checkApp hmanaged)
    intro found _
    cases found <;> exact ⟨rfl, trivial⟩
  | jumpApp slot =>
    dsimp only
    split
    · exact h.withPhase ⟨fun hno => (by cases hno), trivial⟩ (hkept hphase rfl).symm
    · apply h.passes (hkept hphase rfl) (hmanaged.prepareBoot slot)
      intro ok _
      cases ok <;> exact ⟨rfl, trivial⟩
  | handOver slot =>
    exact h.passes (hkept hphase rfl) hmanaged.reload
      fun _ _ => ⟨rfl, fun hno => (by cases hno), trivial⟩
  | launch slot =>
    -- the jump is decided without a change
    have hlaunch : ∀ p : Phase, p.settled = true → Fits s.found p → Tracks { s with phase := p } :=
      fun p hp hfits => h.withPhase hfits (hp.trans (by rw [hphase]; rfl))
    obtain ⟨ok, hok⟩ : ∃ ok, BootJump.toSlot slot s.board = .done ok s.board := ⟨_, rfl⟩
    dsimp only
    unfold System.runs
    rw [hok]
    cases ok with
    | true => exact hlaunch _ rfl trivial
    | false => exact hlaunch _ rfl trivial
  | storing record next => exact h.stores hphase
  | programming =>
    exact h.passes (hkept hphase rfl) (hmanaged.setManager _) fun _ _ => ⟨rfl, trivial⟩
  | starting =>
    exact h.passes (hkept hphase rfl) (BootUds.answered_init KeepsRetained.served.answered)
      fun _ _ => ⟨rfl, trivial⟩
  | serving | unprepared | refused | application | normalizing | stopping | leaving | cut => exact h

theorem call {slot : Slot} (h : Tracks s) (hphase : s.phase = .application slot) (c : Call) :
    Tracks (call c slot s) := by
  have hstoring : ∀ record, Tracks { s with phase := .storing record .leaving } := fun record =>
    h.withPhase ⟨fun hno => (by cases hno), trivial⟩ (by rw [hphase]; rfl)
  cases c with
  | requestProgrammingReset tick => exact ⟨h.fits, h.pending, h.settled⟩
  | requestConfirmReset tick => exact ⟨h.fits, h.pending, h.settled⟩
  | mainFunction tick =>
    unfold Resets.call
    dsimp only
    split
    · exact hstoring _
    · exact h
  | recordFaultAndReset => exact hstoring _
  | resetWithoutRequest => exact hstoring _

theorem step (h : Tracks s) (e : Event) : Tracks (step e s) := by
  have hserved := KeepsRetained.served.answered
  cases e with
  | advance => exact h.advance
  | request turn q =>
    have hon : (turn.on s.board).retained = s.board.retained := rfl
    unfold Resets.step
    dsimp only
    split
    · rename_i hphase
      apply h.runs (by rw [hphase]; rfl) (BootUds.answered_processRequest hserved) hon
      intro response b
      split <;> exact ⟨rfl, trivial⟩
    · exact h
  | timer turn =>
    have hon : (turn.on s.board).retained = s.board.retained := rfl
    unfold Resets.step
    dsimp only
    split
    · rename_i hphase
      exact h.runs (by rw [hphase]; rfl) (BootUds.answered_mainFunction hserved) hon
        fun _ _ => ⟨rfl, trivial⟩
    · exact h
  | call c =>
    unfold Resets.step
    dsimp only
    split
    · rename_i slot hphase
      exact h.call hphase c
    · exact h
  | reset hw fates stores => exact Tracks.boot hw fates stores

/-- In every state of a run. -/
theorem trace (events : Nat → Event) (b : Board) (n : Nat) :
    Tracks (trace events (Resets.start b) n) := by
  induction n with
  | zero => exact start b
  | succ n ih => exact ih.step (events n)

/-- A reset is followed by the right reason unless what the boot found was still to be
    overwritten. -/
theorem consumed_boot (h : Tracks s) (hw : Hardware) (fates : List Fate) (stores : Nat) :
    Consumed (Resets.boot hw fates stores s) ↔ Meets (.reset hw fates stores) s := by
  have hcapture := BootResetReason.capture_eq (Resets.boot hw fates stores s).board
  have hconsumed : Consumed (Resets.boot hw fates stores s) ↔
      ((recorded (s.block stores)).isSome = true →
        s.writtenAt stores = some (s.block stores).magic) := by
    have hblock : (Resets.boot hw fates stores s).board.retained = s.block stores := rfl
    unfold Consumed
    rw [hcapture, hblock]
    cases recorded (s.block stores) with
    | none => exact ⟨fun _ hsome => (by cases hsome), fun _ => rfl⟩
    | some reason => exact ⟨fun hc _ => hc.2, fun hc => ⟨rfl, hc rfl⟩⟩
  rw [hconsumed]
  by_cases hbegun : 0 < stores ∧ ∃ record next, s.phase = .storing record next
  · -- the record that is being stored takes the place of what was found
    obtain ⟨hpos, record, next, hphase⟩ := hbegun
    exact ⟨fun _ => .inr (.inr ⟨hpos, record, next, hphase⟩),
      fun _ => written_of_stores hpos hphase⟩
  have hsame : s.block stores = s.board.retained ∧ s.writtenAt stores = s.written := by
    by_cases hpos : 0 < stores
    · exact block_of_not_storing (fun record next hphase => hbegun ⟨hpos, record, next, hphase⟩) _
    · obtain rfl : stores = 0 := by omega
      exact block_zero
  rw [hsame.1, hsame.2]
  by_cases hsettled : s.phase.settled = true
  · exact ⟨fun _ => .inr (.inl hsettled), fun _ => h.settled hsettled⟩
  obtain ⟨hfound, hwritten⟩ := h.pending (by simpa using hsettled)
  rw [hfound, hwritten]
  constructor
  · intro himp
    left
    cases hf : s.found with
    | none => rfl
    | some reason =>
      have hnone := himp (by rw [hf]; rfl)
      cases hnone
  · intro hmeets hsome
    rcases hmeets with hnone | hyes | hstoring
    · rw [hnone] at hsome
      cases hsome
    · exact absurd hyes hsettled
    · exact absurd hstoring hbegun

end Tracks

/-- Every boot of a run reports the right reason, exactly if in that run no reset ends a boot that
    has found a reason in the block before it has begun to overwrite it. -/
theorem reasons_consumed (events : Nat → Event) (b : Board) :
    (∀ n, (events n).IsReset → Consumed (trace events (start b) (n + 1))) ↔
      ∀ n, Meets (events n) (trace events (start b) n) := by
  constructor
  · intro h n
    cases he : events n with
    | reset hw fates stores =>
      have hconsumed : Consumed (step (events n) (trace events (start b) n)) :=
        h n (by rw [he]; trivial)
      rw [he] at hconsumed
      exact ((Tracks.trace events b n).consumed_boot hw fates stores).1 hconsumed
    | advance | request | timer | call => trivial
  · intro h n hreset
    show Consumed (step (events n) (trace events (start b) n))
    have hmeets := h n
    cases he : events n with
    | reset hw fates stores =>
      rw [he] at hmeets
      exact ((Tracks.trace events b n).consumed_boot hw fates stores).2 hmeets
    | advance | request | timer | call =>
      rw [he] at hreset
      exact hreset.elim

/-! ## A fault that is reported twice -/

/-- The application has recorded a fault and reset; the request pin is high. -/
def faulted : Board where
  dev := Board.blank.dev
  ram := Ram.startup
  retained := AppBootRequest.faultRecord
  hw := ⟨⟨false, false, false, false, false, true, false, false, false, false⟩, true, 0, []⟩

/-- The boot comes to the programming server, and the watchdog resets it there. -/
def watchdogInServer (n : Nat) : Event :=
  [.advance, .advance, .advance, .advance, .advance, .advance, .reset ⟨⟨true, false, false, false,
    false, false, false, false, false, false⟩, false, 0, []⟩ [] 0].getD n .advance

theorem stale_fault_reported : ¬ ∀ n, (watchdogInServer n).IsReset →
    Consumed (trace watchdogInServer (start faulted) (n + 1)) := by
  intro h
  -- the number of the step stays a variable where the run must not be unfolded
  obtain ⟨n, hn⟩ : ∃ n, n = 6 := ⟨6, rfl⟩
  have hconsumed := h n (by rw [hn]; trivial)
  have hrecorded :
      recorded (trace watchdogInServer (start faulted) (n + 1)).board.retained = some .fault := by
    rw [hn]
    decide +kernel
  have hannounced : (trace watchdogInServer (start faulted) (n + 1)).announced = none := by
    rw [hn]
    rfl
  unfold Consumed at hconsumed
  rw [hrecorded, hannounced] at hconsumed
  cases hconsumed.2

end Resets
