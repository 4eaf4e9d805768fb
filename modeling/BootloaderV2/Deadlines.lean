import BootloaderV2.FlasherV2
import BootloaderV2.UpdateRun
import Mathlib.Algebra.Order.Field.Rat
import Mathlib.Tactic.Linarith

/-!
# The flasher gives up

Over a transport whose requests come to an end and a clock that does not go back, every flash comes
to its end: the loops are left within their deadlines.
-/

namespace Gateway

open RaiseM

/-- The transport answers or raises, and time does not go back: what the clock shows lies between
    the time before and after it is read, and a sleep takes as long as it is asked to. -/
structure Timely {σ : Type} (T : Transport σ) (time : σ → Rat) : Prop where
  request : ∀ q s, ∃ r, T.request q s = some r ∧ time s ≤ time r.2
  receiveResponse : ∀ timeout s, ∃ r, T.receiveResponse timeout s = some r ∧ time s ≤ time r.2
  clock_ge : ∀ s, time s ≤ (T.monotonic s).1
  clock_le : ∀ s, (T.monotonic s).1 ≤ time (T.monotonic s).2
  sleep : ∀ seconds s, 0 ≤ seconds → time s + seconds ≤ time (T.sleep seconds s)

/-- It is `t` or later. -/
def After {σ : Type} (time : σ → Rat) (t : Rat) (s : Tester σ) : Prop := t ≤ time s.link

variable {σ α : Type} {T : Transport σ} {time : σ → Rat} {t : Rat} {o : FlashOptions}
  {image : PackedImage} {firmware : List Byte} {fuel : Nat}

/-! ## The client -/

namespace UdsClient

variable {q : List Byte} {sid : Byte}

theorem total_onLink {m : RaiseM σ Raised α} (h : ∀ s, ∃ r, m s = some r ∧ time s ≤ time r.2) :
    Total (After time t) (onLink m) := by
  intro s hs
  obtain ⟨r, hm, hle⟩ := h s.link
  refine ⟨(r.1, { s with link := r.2 }), ?_, le_trans hs hle⟩
  unfold onLink
  rw [hm]
  rfl

theorem total_saying {m : TesterM σ (List Byte)} (h : Total (After time t) m) :
    Total (After time t) (saying q m) := by
  intro s hs
  obtain ⟨r, hm, hr⟩ := h s hs
  refine ⟨(r.1, { r.2 with said := r.2.said ++ [⟨q, r.1⟩] }), ?_, hr⟩
  unfold saying
  rw [hm]
  rfl

/-- From what the clock shows on it is no earlier. -/
theorem total_monotonic {f : Rat → TesterM σ α} (hT : Timely T time)
    (hf : ∀ now, t ≤ now → Total (After time now) (f now)) :
    Total (After time t) (monotonic T >>= f) := by
  intro s hs
  have hge : t ≤ (T.monotonic s.link).1 := le_trans hs (hT.clock_ge s.link)
  obtain ⟨r, hr, hlate⟩ := hf _ hge { s with link := (T.monotonic s.link).2 } (hT.clock_le s.link)
  exact ⟨r, hr, le_trans hge hlate⟩

theorem total_sleep {seconds : Rat} {f : Unit → TesterM σ α} (hT : Timely T time)
    (hseconds : 0 ≤ seconds) (hf : Total (After time (t + seconds)) (f ())) :
    Total (After time t) (sleep T seconds >>= f) := by
  intro s hs
  have hlater : t + seconds ≤ time (T.sleep seconds s.link) :=
    le_trans (add_le_add_left hs seconds) (hT.sleep seconds s.link hseconds)
  obtain ⟨r, hr, hlate⟩ := hf { s with link := T.sleep seconds s.link } hlater
  exact ⟨r, hr, le_trans (le_add_of_nonneg_right hseconds) hlate⟩

theorem total_awaitFinal {deadline : Rat} {left : Nat} {response : List Byte}
    (hT : Timely T time) : Total (After time t) (awaitFinal T sid deadline left response) := by
  induction left generalizing t response with
  | zero =>
    unfold awaitFinal
    exact .ite (fun _ => total_monotonic hT fun _ _ => .raise) fun _ => .pure
  | succ left ih =>
    unfold awaitFinal
    refine .ite (fun _ => ?_) fun _ => .pure
    refine total_monotonic hT fun now _ => .ite (fun _ => .raise) fun _ => ?_
    exact .bind_get fun s => (total_onLink (hT.receiveResponse _)).bind fun _ => ih

theorem total_exchange (hT : Timely T time) : Total (After time t) (exchange T q sid) := by
  unfold exchange
  refine total_saying ((total_onLink (hT.request q)).bind fun response => ?_)
  exact total_monotonic hT fun now _ => (total_awaitFinal hT).bind fun _ => .lift

theorem total_diagnosticSession {session : Byte} (hT : Timely T time) :
    Total (After time t) (diagnosticSession T session) := by
  unfold diagnosticSession
  refine (total_exchange hT).bind fun response => .ite (fun _ => .raise) fun _ => ?_
  refine .ite (fun _ => .raise) fun _ => .bind (.modify ?_) fun _ => .pure
  exact fun s hs => hs

theorem total_securitySeed (hT : Timely T time) : Total (After time t) (securitySeed T) := by
  unfold securitySeed
  exact (total_exchange hT).bind fun _ => .ite (fun _ => .raise) fun _ => .pure

theorem total_securityKey {key : Nat} (hT : Timely T time) :
    Total (After time t) (securityKey T key) := by
  unfold securityKey
  exact (total_exchange hT).bind fun _ => .ite (fun _ => .raise) fun _ => .pure

theorem total_routineStart {routineId : Nat} {parameters : List Byte} (hT : Timely T time) :
    Total (After time t) (routineStart T routineId parameters) := by
  unfold routineStart
  exact (total_exchange hT).bind fun _ => .ite (fun _ => .raise) fun _ => .pure

theorem total_requestDownload {address size : Nat} (hT : Timely T time) :
    Total (After time t) (requestDownload T address size) := by
  unfold requestDownload
  refine (total_exchange hT).bind fun _ => .ite (fun _ => .raise) fun _ => ?_
  exact .ite (fun _ => .raise) fun _ => .pure

theorem total_transferData {sequence : Byte} {data : List Byte} (hT : Timely T time) :
    Total (After time t) (transferData T sequence data) := by
  unfold transferData
  exact (total_exchange hT).bind fun _ => .ite (fun _ => .raise) fun _ => .pure

theorem total_requestTransferExit (hT : Timely T time) :
    Total (After time t) (requestTransferExit T) := by
  unfold requestTransferExit
  exact (total_exchange hT).bind fun _ => .ite (fun _ => .raise) fun _ => .pure

theorem total_ecuReset (hT : Timely T time) : Total (After time t) (ecuReset T) := by
  unfold ecuReset
  exact (total_exchange hT).bind fun _ => .ite (fun _ => .raise) fun _ => .pure

theorem total_readDid {did : Nat} (hT : Timely T time) : Total (After time t) (readDid T did) := by
  unfold readDid
  exact (total_exchange hT).bind fun _ => .ite (fun _ => .raise) fun _ => .pure

end UdsClient

/-! ## The flasher -/

namespace V2UdsFlasher

open Gateway.UdsClient

theorem total_setState {state : FlashState} : Total (After time t) (setState state) :=
  .modify fun _ hs => hs

theorem total_readSlot {did : Nat} (hT : Timely T time) :
    Total (After time t) (readSlot T did) := by
  unfold readSlot
  exact (total_readDid hT).bind fun _ => .ite (fun _ => .raise) fun _ => .pure

theorem total_readVersion (hT : Timely T time) : Total (After time t) (readVersion T) := by
  unfold readVersion
  exact (total_readDid hT).bind fun _ => .ite (fun _ => .raise) fun _ => .pure

/-- Every turn but the last one takes a fifth of a second. -/
theorem total_sessionLoop {deadline : Rat} (hT : Timely T time) (h : deadline ≤ t + fuel / 5) :
    Total (After time t) (sessionLoop T deadline (fuel + 1)) := by
  -- the bound moves along with the time that a turn has taken
  induction fuel generalizing t with
  | zero =>
    unfold sessionLoop
    refine ((total_diagnosticSession hT).bind fun _ => .pure).tryCatch fun e => ?_
    refine .ite (fun _ => total_monotonic hT fun now hnow => ?_) fun _ => .raise
    -- the deadline has come
    have hover : deadline ≤ now := by
      push_cast at h
      linarith
    exact .ite (fun _ => .raise) fun hlate => absurd hover hlate
  | succ fuel ih =>
    unfold sessionLoop
    refine ((total_diagnosticSession hT).bind fun _ => .pure).tryCatch fun e => ?_
    refine .ite (fun _ => total_monotonic hT fun now hnow => ?_) fun _ => .raise
    refine .ite (fun _ => .raise) fun _ => total_sleep hT (by norm_num) (ih ?_)
    push_cast at h
    linarith

theorem total_securityAccess (hT : Timely T time) : Total (After time t) (securityAccess T o) := by
  unfold securityAccess
  refine .ite (fun _ => ?_) fun _ => .pure
  exact (total_securitySeed hT).bind fun _ => (total_securityKey hT).bind fun _ => .pure

theorem total_ifAvailable {m : TesterM σ α} (h : Total (After time t) m) :
    Total (After time t) (ifAvailable m) := by
  unfold ifAvailable
  refine (h.bind fun _ => .pure).tryCatch fun e => ?_
  split
  · exact .ite (fun _ => .pure) fun _ => .raise
  · exact .raise

theorem total_readUpdateStatus (hT : Timely T time) :
    Total (After time t) (readUpdateStatus T) := by
  unfold readUpdateStatus
  exact (total_readDid hT).bind fun _ => .lift

theorem total_readBootStatus (hT : Timely T time) : Total (After time t) (readBootStatus T) := by
  unfold readBootStatus
  exact (total_readDid hT).bind fun _ => .lift

theorem total_commission {initializeJournal : Option JournalChoice} {status : Option UpdateStatus}
    (hT : Timely T time) : Total (After time t) (commission T initializeJournal status) := by
  unfold commission
  cases initializeJournal with
  | none => exact .pure
  | some choice =>
    cases status with
    | none => exact .raise
    | some status =>
      refine .ite (fun _ => .raise) fun _ => ?_
      exact (total_routineStart hT).bind fun _ => (total_readUpdateStatus hT).bind fun _ => .pure

theorem total_requireJournal {status : Option UpdateStatus} :
    Total (After time t) (requireJournal status) := by
  unfold requireJournal
  cases status with
  | none => exact .pure
  | some status => exact .lift

theorem total_describeBoot {status : Option UpdateStatus} (hT : Timely T time) :
    Total (After time t) (describeBoot T status) := by
  unfold describeBoot
  refine .ite (fun _ => ?_) fun _ => .pure
  exact (total_ifAvailable (total_readBootStatus hT)).bind fun _ => .pure

theorem total_checkJournal {initializeJournal : Option JournalChoice} (hT : Timely T time) :
    Total (After time t) (checkJournal T initializeJournal) := by
  unfold checkJournal
  refine (total_ifAvailable (total_readUpdateStatus hT)).bind fun _ => ?_
  refine (total_describeBoot hT).bind fun _ => ?_
  exact (total_commission hT).bind fun _ => total_requireJournal

theorem total_selectTarget (hT : Timely T time) :
    Total (After time t) (selectTarget T o image) := by
  unfold selectTarget
  refine (total_readSlot hT).bind fun _ => (total_readSlot hT).bind fun _ => ?_
  refine (total_readVersion hT).bind fun _ => .ite (fun _ => .raise) fun _ => ?_
  exact .ite (fun _ => .raise) fun _ => .ite (fun _ => .raise) fun _ => .pure

theorem total_prepare {initializeJournal : Option JournalChoice} (hT : Timely T time)
    (hfuel : 26 ≤ fuel) : Total (After time t) (prepare T o initializeJournal image fuel) := by
  obtain ⟨fuel, rfl⟩ : ∃ n, fuel = n + 1 := ⟨fuel - 1, by omega⟩
  have hturns : (25 : Rat) ≤ fuel := by
    exact_mod_cast (by omega : 25 ≤ fuel)
  unfold prepare
  refine total_setState.bind fun _ => (total_diagnosticSession hT).bind fun _ => ?_
  refine total_sleep hT (by norm_num) ?_
  refine total_monotonic hT fun now _ => (total_sessionLoop hT (by linarith)).bind fun _ => ?_
  refine total_setState.bind fun _ => (total_securityAccess hT).bind fun _ => ?_
  refine total_setState.bind fun _ => (total_checkJournal hT).bind fun _ => ?_
  exact total_selectTarget hT

theorem total_transferLoop {total index sent : Nat} {chunks : List (List Byte)}
    (hT : Timely T time) : Total (After time t) (transferLoop T o total index sent chunks) := by
  induction chunks generalizing index sent with
  | nil => exact .pure
  | cons chunk chunks ih =>
    unfold transferLoop
    refine (total_transferData hT).bind fun _ => ?_
    exact .ite (fun _ => total_setState.bind fun _ => .pure) fun _ => ih

theorem total_finish (hT : Timely T time) : Total (After time t) (finish T) := by
  unfold finish
  refine total_setState.bind fun _ => (total_requestTransferExit hT).bind fun _ => ?_
  exact total_setState.bind fun _ => (total_routineStart hT).bind fun _ => .pure

theorem total_program (hT : Timely T time) :
    Total (After time t) (program T o image firmware) := by
  unfold program send
  refine total_setState.bind fun _ => (total_routineStart hT).bind fun _ => ?_
  refine total_setState.bind fun _ => (total_requestDownload hT).bind fun _ => ?_
  refine Total.lift.bind fun chunks => total_setState.bind fun _ => ?_
  refine (total_transferLoop hT).bind fun sent => ?_
  exact .ite (fun _ => total_finish hT) fun _ => .pure

theorem total_runsTarget {target version : Nat} (hT : Timely T time) :
    Total (After time t) (runsTarget T target version) := by
  unfold runsTarget
  refine (total_readSlot hT).bind fun _ => .ite (fun _ => ?_) fun _ => .pure
  exact (total_readVersion hT).bind fun _ => .pure

/-- Every turn takes a quarter of a second. -/
theorem total_confirmLoop {target version : Nat} {deadline : Rat} (hT : Timely T time)
    (h : deadline ≤ t + (fuel + 1) / 4) :
    Total (After time t) (confirmLoop T target version deadline (fuel + 1)) := by
  induction fuel generalizing t with
  | zero =>
    unfold confirmLoop
    refine total_sleep hT (by norm_num) (.bind ?_ fun runs => ?_)
    · exact (total_runsTarget hT).tryCatch fun e => .ite (fun _ => .pure) fun _ => .raise
    · refine .ite (fun _ => .pure) fun _ => total_monotonic hT fun now hnow => ?_
      -- the sleep has reached the deadline
      have hover : deadline ≤ now := by
        push_cast at h
        linarith
      exact .ite (fun _ => .raise) fun hlate => absurd hover hlate
  | succ fuel ih =>
    unfold confirmLoop
    refine total_sleep hT (by norm_num) (.bind ?_ fun runs => ?_)
    · exact (total_runsTarget hT).tryCatch fun e => .ite (fun _ => .pure) fun _ => .raise
    · refine .ite (fun _ => .pure) fun _ => total_monotonic hT fun now hnow => ?_
      refine .ite (fun _ => .raise) fun _ => ih ?_
      push_cast at h
      linarith

theorem total_activate {target : Nat} (hT : Timely T time) (hfuel : 32 ≤ fuel) :
    Total (After time t) (activate T image target fuel) := by
  obtain ⟨fuel, rfl⟩ : ∃ n, fuel = n + 1 := ⟨fuel - 1, by omega⟩
  have hturns : (31 : Rat) ≤ fuel := by
    exact_mod_cast (by omega : 31 ≤ fuel)
  unfold activate
  refine total_setState.bind fun _ => (total_ecuReset hT).bind fun _ => ?_
  refine total_monotonic hT fun now _ => (total_confirmLoop hT (by linarith)).bind fun _ => ?_
  exact total_setState

/-- Every flash comes to its end: the wait for the programming session takes 26 turns at most, and the
    one for the new image 32. -/
theorem flash_total (o : FlashOptions) (initializeJournal : Option JournalChoice)
    (image : PackedImage) (firmware : List Byte) (target fuel : Nat) (s : Tester σ)
    (hT : Timely T time) :
    (26 ≤ fuel → ∃ res s', prepare T o initializeJournal image fuel s = some (res, s') ∧
      time s.link ≤ time s'.link) ∧
    (32 ≤ fuel → ∃ res s', activate T image target fuel s = some (res, s') ∧
      time s.link ≤ time s'.link) ∧
    (32 ≤ fuel → ∃ res s', flash T o initializeJournal firmware fuel s = some (res, s') ∧
      time s.link ≤ time s'.link) := by
  refine ⟨fun hfuel => ?_, fun hfuel => ?_, fun hfuel => ?_⟩
  · obtain ⟨⟨res, s'⟩, hrun, hlater⟩ := total_prepare hT hfuel s le_rfl
    exact ⟨res, s', hrun, hlater⟩
  · obtain ⟨⟨res, s'⟩, hrun, hlater⟩ := total_activate hT hfuel s le_rfl
    exact ⟨res, s', hrun, hlater⟩
  · have htotal : Total (After time (time s.link)) (flash T o initializeJournal firmware fuel) := by
      unfold flash flashImage
      refine Total.tryCatch (Total.lift.bind fun image => ?_) fun e =>
        total_setState.bind fun _ => .raise
      refine (total_prepare hT (by omega)).bind fun target => (total_program hT).bind fun sent => ?_
      exact .ite (fun _ => total_activate hT hfuel) fun _ => .pure
    obtain ⟨⟨res, s'⟩, hrun, hlater⟩ := htotal s le_rfl
    exact ⟨res, s', hrun, hlater⟩

/-- An ECU that answers a first request for a session or a reset; from then on every wait ends in a
    timeout a second later. -/
def fadingBus : Transport (Rat × Bool) where
  request q s :=
    if s.2 then some (.error (.transport (.isoTpTimeoutError "")), (s.1 + 1, true))
    else some (.ok (if q = [0x11, 1] then [0x51, 1] else [0x50, 2, 0, 50, 1, 0xF4]), (s.1, true))
  receiveResponse _ s := some (.error (.transport (.isoTpTimeoutError "")), (s.1 + 1, s.2))
  monotonic s := (s.1, s)
  sleep seconds s := (s.1 + seconds, s.2)

theorem timely_fadingBus : Timely fadingBus Prod.fst where
  request q s := by
    unfold fadingBus
    dsimp only
    split
    · exact ⟨_, rfl, le_add_of_nonneg_right zero_le_one⟩
    · exact ⟨_, rfl, le_rfl⟩
  receiveResponse _ _ := ⟨_, rfl, le_add_of_nonneg_right zero_le_one⟩
  clock_ge _ := le_rfl
  clock_le _ := le_rfl
  sleep _ _ _ := le_rfl

/-- The image of slot B in version 2. -/
def someImage : PackedImage := ⟨[], 1, 0x02000000, 0, 0, 0⟩

/-- The ECU is lost after the first request, so both waits go on until their deadlines. -/
theorem flash_total_fading :
    (∃ res s', prepare fadingBus .plain none someImage 26 ⟨(0, false), 5, .idle, []⟩ =
      some (res, s') ∧ (0 : Rat) ≤ s'.link.1) ∧
    (∃ res s', activate fadingBus someImage 1 32 ⟨(0, false), 5, .verify, []⟩ = some (res, s') ∧
      (0 : Rat) ≤ s'.link.1) ∧
    ∃ res s', flash fadingBus .plain none ((List.range 229376).map updateImage) 32
      ⟨(0, false), 5, .idle, []⟩ = some (res, s') ∧ (0 : Rat) ≤ s'.link.1 :=
  ⟨(flash_total .plain none someImage [] 1 26 _ timely_fadingBus).1 (by decide),
    (flash_total .plain none someImage [] 1 32 _ timely_fadingBus).2.1 (by decide),
    (flash_total .plain none someImage _ 1 32 _ timely_fadingBus).2.2 (by decide)⟩

end V2UdsFlasher

end Gateway
