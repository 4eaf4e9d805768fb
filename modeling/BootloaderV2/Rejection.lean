import BootloaderV2.Authorisation

/-!
# Rejected requests

A request that is answered with one of the codes of a check leaves the server as its service found
it.  The dispatcher has refreshed the context by then, and a download request that is rejected by
the operation has restarted the timer of the transfer.
-/

open BootConfig NorFlash CrashM

namespace BootProgramming

variable {b : Board}

/-- An answer of an operation that has begun. -/
def Begun (r : Byte) : Prop := r = 0 ∨ r = 0x72

theorem ensures_eraseLoop {header current n : Nat} :
    Ensures (eraseLoop header current n) (fun r _ => Begun r) b := by
  induction n generalizing b current with
  | zero => exact .pure (.inl rfl)
  | succ n ih =>
    unfold eraseLoop
    refine .ite (fun _ => ih) fun _ => .skip fun ok b₁ => .ite (fun _ => .pure (.inr rfl)) fun _ => ?_
    refine .skip fun ok b₂ => .ite (fun _ => ?_) fun _ => ih
    exact .skip fun _ _ => .pure (.inr rfl)

theorem ensures_eraseTarget {active target : SlotId} {address size : Nat} :
    Ensures (eraseTarget active target address size) (fun r _ => Begun r) b := by
  have hfail : ∀ {b : Board}, Ensures (do let _ ← BootUpdate.abort .eraseFailed; return (0x72 : Byte))
      (fun r _ => Begun r) b := .skip fun _ _ => .pure (.inr rfl)
  unfold eraseTarget
  refine .skip fun _ _ => .ite (fun _ => .pure (.inr rfl)) fun _ => ?_
  refine .skip fun _ _ => .ite (fun _ => .pure (.inr rfl)) fun _ => ?_
  refine .skip fun _ _ => .ite (fun _ => hfail) fun _ => ?_
  refine .skip fun _ _ => .ite (fun _ => hfail) fun _ => ?_
  refine ensures_eraseLoop.bind fun r b' hr => .ite (fun _ => .pure hr) fun _ => ?_
  refine .skip fun _ _ => .ite (fun _ => .pure (.inr rfl)) fun _ => ?_
  exact .skip fun _ _ => .pure (.inl rfl)

/-- The checks of an operation come before its effects. -/
theorem ensures_erase {address size : Nat} :
    Ensures (erase address size) (fun r b' => Begun r ∨ b' = b) b := by
  have hsame : ∀ {r : Byte}, Ensures (Pure.pure r) (fun r b' => Begun r ∨ b' = b) b :=
    .pure (.inr rfl)
  have hfail : ∀ {b' : Board}, Ensures (Pure.pure 0x72) (fun r b' => Begun r ∨ b' = b) b' :=
    .pure (.inl (.inr rfl))
  unfold erase
  refine .ite (fun _ => hsame) fun _ => .ite (fun _ => hsame) fun _ => .ite (fun _ => hsame)
    fun _ => .ite (fun _ => hsame) fun _ => ?_
  refine .skip fun _ _ => .skip fun _ _ => .ite (fun _ => hfail) fun _ => ?_
  refine .skip fun _ _ => .ite (fun _ => hfail) fun _ => ?_
  exact ensures_eraseTarget.mono fun r b' hr => .inl hr

theorem ensures_download {address size : Nat} :
    Ensures (download address size) (fun r b' => Begun r ∨ b' = b) b := by
  have hsame : ∀ {r : Byte}, Ensures (Pure.pure r) (fun r b' => Begun r ∨ b' = b) b :=
    .pure (.inr rfl)
  unfold download
  refine .ite (fun _ => hsame) fun _ => .ite (fun _ => hsame) fun _ => .ite (fun _ => hsame)
    fun _ => ?_
  refine .skip fun _ _ => .ite (fun _ => .pure (.inl (.inr rfl))) fun _ => ?_
  exact .skip fun _ _ => .pure (.inl (.inl rfl))

theorem ensures_transfer {sequence : Byte} {data : List Byte} :
    Ensures (transfer sequence data) (fun r b' => Begun r ∨ b' = b) b := by
  have hsame : ∀ {r : Byte}, Ensures (Pure.pure r) (fun r b' => Begun r ∨ b' = b) b :=
    .pure (.inr rfl)
  unfold transfer
  refine .ite (fun _ => hsame) fun _ => .ite (fun _ => hsame) fun _ => .ite (fun _ => hsame)
    fun _ => .ite (fun _ => hsame) fun _ => .ite (fun _ => hsame) fun _ => ?_
  refine .skip fun _ _ => .ite (fun _ => ?_) fun _ => ?_
  · exact .skip fun _ _ => .skip fun _ _ => .pure (.inl (.inr rfl))
  · refine .skip fun _ _ => .skip fun _ _ => .skip fun _ _ => .ite (fun _ => ?_) fun _ => ?_
    · exact .skip fun _ _ => .pure (.inl (.inr rfl))
    · exact .skip fun _ _ => .pure (.inl (.inl rfl))

theorem ensures_exit : Ensures exit (fun r b' => Begun r ∨ b' = b) b := by
  unfold exit
  refine .ite (fun _ => .pure (.inr rfl)) fun _ => .ite (fun _ => .pure (.inr rfl)) fun _ => ?_
  refine .skip fun _ _ => .ite (fun _ => .pure (.inl (.inr rfl))) fun _ => ?_
  exact .skip fun _ _ => .pure (.inl (.inl rfl))

/-- Verification may also end with the code of a version that is not newer. -/
theorem ensures_verify : Ensures verify (fun r b' => (Begun r ∨ r = 0x31) ∨ b' = b) b := by
  have hfail : ∀ {b' : Board}, Ensures (Pure.pure 0x72)
      (fun r b' => (Begun r ∨ r = 0x31) ∨ b' = b) b' := .pure (.inl (.inl (.inr rfl)))
  unfold verify
  refine .ite (fun _ => .pure (.inr rfl)) fun _ => .ite (fun _ => .pure (.inr rfl)) fun _ => ?_
  refine .skip fun _ _ => .ite (fun _ => hfail) fun _ => .skip fun _ _ =>
    .ite (fun _ => hfail) fun _ => .skip fun _ _ => .skip fun _ _ => .ite (fun _ => ?_) fun _ =>
    .ite (fun _ => ?_) fun _ => .skip fun _ _ => .ite (fun _ => hfail) fun _ => ?_
  · exact .skip fun _ _ => hfail
  · exact .skip fun _ _ => .pure (.inl (.inr rfl))
  unfold verifyPublish
  refine .skip fun _ _ => .ite (fun _ => ?_) fun _ => .skip fun _ _ => .ite (fun _ => ?_) fun _ =>
    .skip fun _ _ => .ite (fun _ => hfail) fun _ => ?_
  · exact .skip fun _ _ => .skip fun _ _ => hfail
  · exact .skip fun _ _ => .skip fun _ _ => hfail
  unfold verifyPublished
  refine .skip fun _ _ => .skip fun _ _ => .ite (fun _ => ?_) fun _ => .skip fun _ _ =>
    .ite (fun _ => .pure (.inl (.inl (.inl rfl)))) fun _ => ?_
  · exact .skip fun _ _ => hfail
  · exact .skip fun _ _ => hfail

end BootProgramming

namespace BootUds

variable {b : Board} {q : List Byte}

/-- A download request whose format is right: its service restarts the timer of the transfer,
    whatever the operation answers. -/
def Restarts (q : List Byte) : Prop :=
  q.headD 0 = 0x34 ∧ q.length = 11 ∧ q.getD 1 0 = 0 ∧ q.getD 2 0 = 0x44

instance : Decidable (Restarts q) :=
  inferInstanceAs (Decidable (_ ∧ _ ∧ _ ∧ _))

/-- Routine 0xFF01. -/
def Verifies (q : List Byte) : Prop :=
  q.headD 0 = 0x31 ∧ (q.getD 2 0).toNat * 256 + (q.getD 3 0).toNat = routineVerifyCrc

instance : Decidable (Verifies q) :=
  inferInstanceAs (Decidable (_ ∧ _))

/-- The board with the timer of the transfer restarted. -/
def restarted (b : Board) : Board :=
  { b with ram := { b.ram with uds := { b.ram.uds with transferTimeout := 0 } } }

/-- What a rejection leaves of the board its service ran on. -/
def rejected (q : List Byte) (b : Board) : Board := if Restarts q then restarted b else b

theorem rejected_of_head (h : q.headD 0 ≠ 0x34) : rejected q b = b := if_neg fun hr => h hr.1

/-- How a service ends: a positive response is none that begins like a negative one, and a negative
    one is that of an operation which failed, of a rejected key or of an image that is no newer, or
    it leaves the board as the service found it. -/
def Settled (q : List Byte) (b : Board) (ans : Answer) (b' : Board) : Prop :=
  match ans with
  | .ok response => response.headD 0 ≠ 0x7F
  | .error nrc => nrc = 0x72 ∨ nrc = 0x35 ∨ (Verifies q ∧ nrc = 0x31) ∨ b' = rejected q b

theorem ensures_answer {m : BootM Byte} {response : List Byte} {P : Byte → Prop}
    (hresponse : response.headD 0 ≠ 0x7F) (hhead : q.headD 0 ≠ 0x34)
    (hP : ∀ r, P r → r = 0x72 ∨ r = 0 ∨ (Verifies q ∧ r = 0x31))
    (h : Ensures m (fun r b' => P r ∨ b' = b) b) :
    Ensures (do return answer (← m) response) (Settled q b) b := by
  refine h.bind ?_
  intro r b' hr
  refine .pure ?_
  unfold answer
  split
  · exact hresponse
  · rename_i hne
    rcases hr with hr | rfl
    · rcases hP r hr with h | h | h
      · exact .inl h
      · exact absurd h hne
      · exact .inr (.inr (.inl h))
    · exact .inr (.inr (.inr (rejected_of_head hhead).symm))

theorem Settled.same {nrc : Byte} (h : ¬ Restarts q) : Settled q b (.error nrc) b :=
  .inr (.inr (.inr (if_neg h).symm))

theorem begun_settled {r : Byte} (h : BootProgramming.Begun r) :
    r = 0x72 ∨ r = 0 ∨ (Verifies q ∧ r = 0x31) := by
  rcases h with h | h
  · exact .inr (.inl h)
  · exact .inl h

theorem ensures_commission :
    Ensures (commission q) (fun r b' => BootProgramming.Begun r ∨ b' = b) b := by
  have hfail : ∀ {b' : Board}, Ensures (Pure.pure 0x72)
      (fun r b' => BootProgramming.Begun r ∨ b' = b) b' := .pure (.inl (.inr rfl))
  unfold commission
  refine .ite (fun _ => .pure (.inr rfl)) fun _ => .ite (fun _ => .pure (.inr rfl)) fun _ =>
    .ite (fun _ => .pure (.inr rfl)) fun _ => .ite (fun _ => .pure (.inr rfl)) fun _ => ?_
  refine .skip fun _ _ => .ite (fun _ => hfail) fun _ => .skip fun _ _ => .ite (fun _ => hfail)
    fun _ => .skip fun _ _ => .ite (fun _ => hfail) fun _ => ?_
  exact .skip fun _ _ => .skip fun _ _ => .skip fun _ _ => .skip fun _ _ => .pure (.inl (.inl rfl))

theorem ensures_routineControl (hhead : q.headD 0 = 0x31) :
    Ensures (routineControl q) (Settled q b) b := by
  have h34 : q.headD 0 ≠ 0x34 := by rw [hhead]; decide
  have hsame : ∀ {nrc : Byte}, Ensures (Pure.pure (.error nrc)) (Settled q b) b :=
    .pure (.same fun h => h34 h.1)
  have hresponse : ([0x71, 1, q.getD 2 0, q.getD 3 0] : List Byte).headD 0 ≠ 0x7F :=
    (by decide : (0x71 : Byte) ≠ 0x7F)
  unfold routineControl
  refine .ite (fun _ => hsame) fun _ => .ite (fun _ => hsame) fun _ => ?_
  dsimp only
  refine .ite (fun _ => ?_) fun _ => .ite (fun hr => ?_) fun _ => .ite (fun _ => ?_) fun _ => hsame
  · refine .ite (fun _ => hsame) fun _ => ?_
    exact ensures_answer hresponse h34 (fun _ => begun_settled) BootProgramming.ensures_erase
  · refine .ite (fun _ => hsame) fun _ => ?_
    refine ensures_answer hresponse h34 (fun r h => ?_) BootProgramming.ensures_verify
    rcases h with h | h
    · exact begun_settled h
    · exact .inr (.inr ⟨⟨hhead, hr⟩, h⟩)
  · exact ensures_answer hresponse h34 (fun _ => begun_settled) ensures_commission

theorem ensures_requestDownload (hhead : q.headD 0 = 0x34) :
    Ensures (requestDownload q) (Settled q b) b := by
  unfold requestDownload
  refine .ite (fun hlen => .pure (.same fun h => hlen h.2.1)) fun hlen =>
    .ite (fun hfmt => .pure (.same fun h => ?_)) fun hfmt => ?_
  · rcases hfmt with hfmt | hfmt
    · exact hfmt h.2.2.1
    · exact hfmt h.2.2.2
  have hrestarts : Restarts q := ⟨hhead, by omega, by
    constructor
    · exact not_not.1 fun h => hfmt (.inl h)
    · exact not_not.1 fun h => hfmt (.inr h)⟩
  refine BootProgramming.ensures_download.bind ?_
  intro r b' hr
  -- the timer is restarted here, before anyone looks at the code
  show Ensures (do
    let ram ← BootM.getRam
    return answer r [0x74, 0x20, BitVec.ofNat 8 (ram.programming.maxBlockLength / 256),
      BitVec.ofNat 8 ram.programming.maxBlockLength] : BootM Answer) (Settled q b) (restarted b')
  refine Ensures.pure ?_
  unfold answer
  split
  · show (0x74 : Byte) ≠ 0x7F
    decide
  · rename_i hne
    rcases hr with (hr | hr) | rfl
    · exact absurd hr hne
    · exact .inl hr
    · exact .inr (.inr (.inr (if_pos hrestarts).symm))

theorem ensures_transferData (hhead : q.headD 0 = 0x36) :
    Ensures (transferData q) (Settled q b) b := by
  have h34 : q.headD 0 ≠ 0x34 := by rw [hhead]; decide
  unfold transferData
  refine .ite (fun _ => .pure (.same fun h => h34 h.1)) fun _ => ?_
  refine BootProgramming.ensures_transfer.bind fun r b' hr => .ite (fun _ => ?_) fun hne => .pure ?_
  · refine .skip fun _ _ => .pure ?_
    show (0x76 : Byte) ≠ 0x7F
    decide
  · rcases hr with (hr | hr) | rfl
    · exact absurd hr hne
    · exact .inl hr
    · exact .same fun h => h34 h.1

theorem ensures_transferExit (hhead : q.headD 0 = 0x37) :
    Ensures (transferExit q) (Settled q b) b := by
  have h34 : q.headD 0 ≠ 0x34 := by rw [hhead]; decide
  unfold transferExit
  refine .ite (fun _ => .pure (.same fun h => h34 h.1)) fun _ => ?_
  exact ensures_answer (by decide) h34 (fun _ => begun_settled) BootProgramming.ensures_exit

theorem ensures_sessionControl (hhead : q.headD 0 = 0x10) :
    Ensures (sessionControl q) (Settled q b) b := by
  have hsame : ∀ {nrc : Byte}, Ensures (Pure.pure (.error nrc)) (Settled q b) b :=
    .pure (.same fun h => absurd (hhead.symm.trans h.1) (by decide))
  unfold sessionControl
  refine .ite (fun _ => hsame) fun _ => .ite (fun _ => hsame) fun _ => ?_
  refine .skip fun _ _ => .skip fun _ _ => .skip fun _ _ => .skip fun _ _ => .pure ?_
  show (0x50 : Byte) ≠ 0x7F
  decide

theorem Access.settled {ans : Answer} {b' : Board} (hhead : q.headD 0 = 0x27)
    (h : Access q b ans b') : Settled q b ans b' := by
  cases h with
  | refused => exact .same fun h => absurd (hhead.symm.trans h.1) (by decide)
  | seeded => exact (by decide : (0x67 : Byte) ≠ 0x7F)
  | accepted => exact (by decide : (0x67 : Byte) ≠ 0x7F)
  | rejected => exact .inr (.inl rfl)

theorem ensures_readData (hhead : q.headD 0 = 0x22) : Ensures (readData q) (Settled q b) b := by
  have hsame : ∀ {nrc : Byte}, Ensures (Pure.pure (.error nrc)) (Settled q b) b :=
    .pure (.same fun h => absurd (hhead.symm.trans h.1) (by decide))
  have hok : ∀ {rest : List Byte}, Ensures
      (Pure.pure (.ok ([0x62, q.getD 1 0, q.getD 2 0] ++ rest))) (Settled q b) b :=
    .pure (by decide : (0x62 : Byte) ≠ 0x7F)
  unfold readData
  refine .ite (fun _ => hsame) fun _ => .ite (fun _ => hok) fun _ => .ite (fun _ => hok) fun _ =>
    .ite (fun _ => hok) fun _ => .ite (fun _ => hok) fun _ => .ite (fun _ => ?_) fun _ => hsame
  exact .skip fun _ _ => .skip fun _ _ => .pure (by decide : (0x62 : Byte) ≠ 0x7F)

theorem ensures_service (hb : Synced b) : Ensures (service (q.headD 0) q) (Settled q b) b := by
  unfold service
  refine .ite (fun h => ensures_sessionControl h) fun _ => .ite (fun h => ?_) fun _ =>
    .ite (fun h => ensures_readData h) fun _ => .ite (fun h => ensures_routineControl h) fun _ =>
    .ite (fun h => ensures_requestDownload h) fun h34 => .ite (fun h => ensures_transferData h)
    fun _ => .ite (fun h => ensures_transferExit h) fun _ => .ite (fun _ => ?_) fun _ =>
    .ite (fun _ => ?_) fun _ => .pure (.same fun h => h34 h.1)
  · exact wp_mono (issues_securityAccess hb) (fun _ _ ha => ha.2.settled h) fun _ _ => trivial
  · refine wp_mono (issues_ecuReset (q := q)) ?_ fun _ _ => trivial
    rintro ans b' ⟨-, ⟨⟨nrc, rfl⟩, rfl⟩ | ⟨rfl, -⟩⟩
    · exact .same fun h => h34 h.1
    · exact (by decide : (0x51 : Byte) ≠ 0x7F)
  · unfold testerPresent
    exact .ite (fun _ => .pure (.same fun h => h34 h.1)) fun _ =>
      .pure (by decide : (0x7E : Byte) ≠ 0x7F)

/-- The negative response codes of requests that are not accepted. -/
def rejections : List Byte := [0x11, 0x12, 0x13, 0x22, 0x24, 0x31, 0x33, 0x73]

/-- Session, reset and timer, security, context with its buffer, and the whole flash. -/
structure Unchanged (b b' : Board) : Prop where
  uds : b'.ram.uds = b.ram.uds
  security : b'.ram.security = b.ram.security
  programming : b'.ram.programming = b.ram.programming
  mem : b'.mem = b.mem

/-- A rejected request leaves the refreshed board, with the timer restarted by a download request. -/
theorem rejected_eq {nrc : Byte} {b' : Board}
    (hdone : processRequest q b = .done (some (negative (q.headD 0) nrc)) b')
    (hnrc : nrc ∈ rejections) (hverify : ¬ (Verifies q ∧ nrc = 0x31)) :
    b' = rejected q (refreshed b) := by
  have hrequest : Ensures (processRequest q) (fun r b' => ∀ nrc,
      r = some (negative (q.headD 0) nrc) → nrc = 0x72 ∨ nrc = 0x35 ∨ (Verifies q ∧ nrc = 0x31) ∨
        b' = rejected q (refreshed b)) b := by
    unfold processRequest
    refine .ite (fun _ => .pure fun nrc h => (by cases h)) fun _ => ?_
    show Ensures (do
      match ← service (q.headD 0) q with
      | .ok response => return some response
      | .error nrc => return some (negative (q.headD 0) nrc) : BootM (Option (List Byte))) _
      (refreshed b)
    refine (ensures_service (refreshed_synced b)).bind ?_
    rintro (nrc | response) b' hans
    · refine .pure fun nrc' h => ?_
      have hnrc : nrc = nrc' :=
        (List.cons.inj (List.cons.inj (List.cons.inj (Option.some.inj h)).2).2).1
      exact hnrc ▸ hans
    · refine .pure fun nrc' h => absurd ?_ hans
      rw [Option.some.inj h]
      rfl
  rcases hrequest.of_done hdone nrc rfl with rfl | rfl | h | h
  · exact absurd hnrc (by decide)
  · exact absurd hnrc (by decide)
  · exact absurd h hverify
  · exact h

/-- Rejected requests.  A request rejected in a state the server comes to changes nothing if and only
    if the context was in step with session and security, and it is no well formed download request
    while the timer of a transfer is running. -/
theorem rejected_unchanged_iff (b₀ b : Board) (t : List Exchange) (_ : Reaches b₀ t b) (e : Turn)
    (q : List Byte) (nrc : Byte) (b' : Board)
    (hdone : processRequest q (e.on b) = .done (some (negative (q.headD 0) nrc)) b')
    (hnrc : nrc ∈ rejections) (hverify : ¬ (Verifies q ∧ nrc = 0x31)) :
    Unchanged (e.on b) b' ↔ Synced b ∧ (Restarts q → b.ram.uds.transferTimeout = 0) := by
  obtain rfl := rejected_eq hdone hnrc hverify
  have hprog : (rejected q (refreshed (e.on b))).ram.programming =
      (refreshed (e.on b)).ram.programming := by
    unfold rejected
    split <;> rfl
  constructor
  · intro h
    refine ⟨⟨?_, ?_⟩, fun hq => ?_⟩
    · have := congrArg BootProgramming.Context.sessionActive (hprog.symm.trans h.programming)
      exact this.symm
    · have := congrArg BootProgramming.Context.securityUnlocked (hprog.symm.trans h.programming)
      exact this.symm
    · have := h.uds
      unfold rejected at this
      rw [if_pos hq] at this
      exact (congrArg BootUds.State.transferTimeout this).symm
  · rintro ⟨hsync, htimer⟩
    have hrefresh : refreshed (e.on b) = e.on b := refreshed_eq_iff.2 ⟨hsync.session, hsync.unlocked⟩
    rw [hrefresh]
    unfold rejected
    split
    · rename_i hq
      refine ⟨?_, rfl, rfl, rfl⟩
      show ({ b.ram.uds with transferTimeout := 0 } : BootUds.State) = b.ram.uds
      rw [← htimer hq]
    · exact ⟨rfl, rfl, rfl, rfl⟩

end BootUds

/-! ## The context after a rejected key -/

namespace Reaches

open BootUds

variable {b₀ b : Board} {t : List Exchange}

/-- The context is in step with session and security unless the last answer was that to a rejected
    key. -/
theorem synced_or_rejected (h : Reaches b₀ t b) :
    Synced b ∨ ∃ t₁ x t₂, t = t₁ ++ x :: t₂ ∧ x.RejectsKey ∧ ∀ y ∈ t₂, y.response = none := by
  induction h with
  | start h =>
    cases h
    exact .inl ⟨rfl, rfl⟩
  | @request t b b' q r e hb hq ih =>
    obtain ⟨-, ⟨rfl, rfl⟩ | ⟨ans, rfl, hgate⟩⟩ :=
      (issues_request (e.inStep hb.inStep)).of_done hq
    · rcases ih with ih | ⟨t₁, x, t₂, rfl, hx, hquiet⟩
      · exact .inl ⟨ih.session, ih.unlocked⟩
      · refine .inr ⟨t₁, x, t₂ ++ [⟨q, none⟩], by simp, hx, fun y hy => ?_⟩
        rcases List.mem_append.1 hy with hy | hy
        · exact hquiet y hy
        · rw [List.mem_singleton.1 hy]
    · have hsync := refreshed_synced (e.on b)
      by_cases h10 : q.headD 0 = 0x10
      · rcases hgate.session h10 with ⟨-, rfl⟩ | ⟨-, hsync', -⟩
        · exact .inl hsync
        · exact .inl hsync'
      by_cases h27 : q.headD 0 = 0x27
      · cases hgate.access h27 with
        | refused => exact .inl hsync
        | seeded => exact .inl (refreshed_synced _)
        | accepted => exact .inl (refreshed_synced _)
        | rejected =>
          refine .inr ⟨t, _, [], rfl, ⟨h27, ?_⟩, fun y hy => (by cases hy)⟩
          rw [h27]
          rfl
      by_cases h11 : q.headD 0 = 0x11
      · rcases hgate.reset h11 with ⟨-, rfl⟩ | ⟨-, -, -, rfl⟩
        · exact .inl hsync
        · exact .inl ⟨hsync.session, hsync.unlocked⟩
      · exact .inl ((hgate.rest h10 h27 h11).synced hsync)
  | @tick t b b' e hb htick ih =>
    have hgate := ((issues_mainFunction (e.inStep hb.inStep)).of_done htick).2
    rcases ih with ih | ih
    · exact .inl (hgate.synced (b := e.on b) ⟨ih.session, ih.unlocked⟩)
    · exact .inr ih

/-- A key without a seed locks the server, and the context does not hear of it. -/
theorem stale (h : Reaches b₀ t b) (hauth : Authorised b)
    (hi : b.ram.security.seedIssued = false) : ∃ t' b', Reaches b₀ t' b' ∧ ¬ Synced b' := by
  let e : Turn := ⟨[], .powerOn⟩
  obtain ⟨ans, b', hdone, haccess⟩ := access_answered (b := e.on b) (q := [0x27, 2, 0, 0, 0, 0])
    (fun n hn => by cases hn) rfl (by decide)
  cases haccess with
  | refused hnrc hwhy => exact absurd ⟨rfl, rfl⟩ (hwhy hauth.1).2
  | seeded hs' hlen => exact absurd hlen (by decide)
  | accepted hs' hlen hsub hissued => exact absurd (hi.symm.trans hissued) (by decide)
  | rejected =>
    refine ⟨_, _, h.request e hdone, fun hsync => ?_⟩
    have hunlocked : b.ram.security.unlocked = false := hsync.unlocked
    exact absurd (hauth.2.symm.trans hunlocked) (by decide)

end Reaches

/-- After a rejected key the next request is rejected with an effect on the context. -/
theorem BootUds.rejected_changes : ¬ ∀ (b₀ b : Board) (t : List Exchange), Reaches b₀ t b →
    ∀ (e : Turn) (q : List Byte) (nrc : Byte) (b' : Board),
      processRequest q (e.on b) = .done (some (negative (q.headD 0) nrc)) b' →
      nrc ∈ rejections → ¬ (Verifies q ∧ nrc = 0x31) → Unchanged (e.on b) b' := by
  intro hall
  obtain ⟨t, b, hreach, hauth, hsync, hi⟩ := Reaches.unlocked
  obtain ⟨t', b', hreach', hstale⟩ := hreach.stale hauth hi
  let e : Turn := ⟨[], .powerOn⟩
  have hsame := hall _ b' t' hreach' e [0x99] 0x11 (refreshed (e.on b')) rfl (by decide) (by decide)
  refine hstale ⟨?_, ?_⟩
  · exact (congrArg BootProgramming.Context.sessionActive hsame.programming).symm
  · exact (congrArg BootProgramming.Context.securityUnlocked hsame.programming).symm
