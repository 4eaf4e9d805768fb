import BootloaderV2.Agreement
import BootloaderV2.FlasherV2
import BootloaderV2.UpdateRun
import Mathlib.Algebra.Order.Field.Rat
import Mathlib.Tactic.Linarith

/-!
# The flasher on the bootloader

The flasher of the gateway against the server of the bootloader.  Their messages arrive as they are
sent; what else happens to the server between them, and how often it asks for more time, is open.
-/

open RaiseM Buffer

namespace Gateway

/-- What happens around one request: turns of the main loop, the request in its own turn, and some
    responses that ask for more time. -/
structure Visit where
  before : List Turn
  turn : Turn
  pendings : Nat

/-- Flash and CAN driver work, and neither the server nor the client gives up. -/
structure Visit.Fair (pace : Rat) (v : Visit) : Prop where
  before : ∀ e ∈ v.before, e.Fair
  turn : v.turn.Fair
  prompt : v.before.length < BootUds.transferTimeoutLoops
  pendings : v.pendings ≤ 120
  patient : v.pendings * pace < 30

/-- The server, the number of requests so far, the messages on their way, and the clock. -/
structure Bench where
  board : Board
  asked : Nat
  messages : List (List Byte)
  now : Rat

namespace Bench

def silence : Raised := .transport (.isoTpTimeoutError "")

/-- The main loop turns, unless the device is reset. -/
def ticks : List Turn → Board → Option Board
  | [], b => some b
  | e :: es, b =>
    match BootUds.mainFunction (e.on b) with
    | .done _ b' => ticks es b'
    | .cut _ => none

/-- The response to a request, if there is one. -/
def answer (v : Visit) (q : List Byte) (b : Board) : Option (List Byte × Board) :=
  match ticks v.before b with
  | none => none
  | some b₁ =>
    match BootUds.processRequest q (v.turn.on b₁) with
    | .done (some r) b' => some (r, b')
    | _ => none

/-- The next message. -/
def next (s : Bench) : Option (Except Raised (List Byte) × Bench) :=
  match s.messages with
  | [] => some (.error silence, s)
  | r :: rs => some (.ok r, { s with messages := rs })

/-- The server behind the transport; another message comes after `pace`, if the client waits so long. -/
def transport (visits : Nat → Visit) (pace : Rat) : Transport Bench where
  request q s :=
    match answer (visits s.asked) q s.board with
    | none => some (.error silence, s)
    | some (r, b) =>
      let pending := UdsClient.pendingResponse (q.headD 0)
      next { s with
        board := b
        asked := s.asked + 1
        messages := List.replicate (visits s.asked).pendings pending ++ [r] }
  receiveResponse timeout s :=
    if pace ≤ timeout then next { s with now := s.now + pace }
    else some (.error silence, { s with now := s.now + timeout })
  monotonic s := (s.now, s)
  sleep seconds s := { s with now := s.now + seconds }

end Bench

open BootUds (Attended Due Shippable Offers Updated updateRequests transferRequests eraseRequest
  downloadRequest)
open BootProgramming (block)

variable {visits : Nat → Visit} {pace : Rat} {s : Tester Bench} {q r : List Byte} {sid : Byte}
  {t : Slot} {img : Nat → Byte} {act : SlotId} {version : Word}
  {rest : List (List Byte × List Byte)} {data : List Byte}

/-! ## The server -/

/-- A server with these requests left of an update. -/
structure Serving (t : Slot) (img : Nat → Byte) (act : SlotId) (version : Word)
    (due : List (List Byte × List Byte)) (b : Board) : Prop where
  attended : Attended b
  serving : Endures (.serving b)
  due : Due t img act version 0 due b

theorem ticks_due {es : List Turn} {b : Board} {k : Nat} {due : List (List Byte × List Byte)}
    (ha : Attended b) (h : Endures (.serving b)) (hd : Due t img act version k due b)
    (hfair : ∀ e ∈ es, e.Fair) (hk : k + es.length < BootUds.transferTimeoutLoops) :
    ∃ b', Bench.ticks es b = some b' ∧ Attended b' ∧ Endures (.serving b') ∧
      ∃ k', Due t img act version k' due b' := by
  induction es generalizing b k with
  | nil => exact ⟨b, rfl, ha, h, k, hd⟩
  | cons e es ih =>
    rw [List.length_cons] at hk
    have he : e.Fair := hfair e List.mem_cons_self
    obtain ⟨b₁, hrun, ha₁, hd₁⟩ := hd.tick ha he (by omega)
    have h₁ : Endures (.serving b₁) :=
      h.serve .tick e he.calm.sound (by simp) (Activity.tick_done hrun)
    obtain ⟨b', hticks, hend⟩ := ih ha₁ h₁ hd₁ (fun e he => hfair e (List.mem_cons_of_mem _ he))
      (by omega)
    refine ⟨b', ?_, hend⟩
    unfold Bench.ticks
    rw [hrun]
    exact hticks

/-- The next request is answered, and the rest is left. -/
theorem Serving.answer {v : Visit} {b : Board} (hship : Shippable t img act version)
    (hv : v.Fair pace) (h : Serving t img act version ((q, r) :: rest) b) :
    ∃ b', Bench.answer v q b = some (r, b') ∧ Serving t img act version rest b' := by
  obtain ⟨b₁, hticks, ha₁, h₁, k, hd₁⟩ := ticks_due h.attended h.serving h.due hv.before
    (by simpa using hv.prompt)
  obtain ⟨b', hrun, ha', hd'⟩ := hd₁.exchange hship ha₁ hv.turn
  have h' : Endures (.serving b') :=
    h₁.serve (.request q) v.turn hv.turn.calm.sound (by simp) (Activity.request_done hrun)
  refine ⟨b', ?_, ha', h', hd'⟩
  unfold Bench.answer
  rw [hticks]
  dsimp only
  rw [hrun]

/-! ## The client -/

/-- The client has a server with `P` behind its transport, and waits longer than `pace` for a
    message. -/
structure Facing (pace : Rat) (P : Board → Prop) (s : Tester Bench) : Prop where
  board : P s.link.board
  waits : pace ≤ s.p2StarSeconds

theorem Facing.mono {P Q : Board → Prop} (h : Facing pace P s)
    (hpq : P s.link.board → Q s.link.board) : Facing pace Q s :=
  ⟨hpq h.board, h.waits⟩

namespace UdsClient

theorem returns_awaitFinal {deadline : Rat} {n left : Nat} {response : List Byte}
    (hpace : 0 ≤ pace) (hwait : pace ≤ s.p2StarSeconds) (hfinal : r ≠ pendingResponse sid)
    (hn : n ≤ left)
    (hqueue : response :: s.link.messages = List.replicate n (pendingResponse sid) ++ [r])
    (hpatient : s.link.now + n * pace < deadline) :
    Returns (awaitFinal (Bench.transport visits pace) sid deadline left response)
      (fun a s' => a = r ∧ Facing pace (· = s.link.board) s') s := by
  -- on the responses that still ask for more time
  induction n generalizing left response s with
  | zero =>
    obtain ⟨rfl, -⟩ := List.cons.inj hqueue
    cases left with
    | zero =>
      unfold awaitFinal
      exact .ite_neg hfinal (.pure ⟨rfl, rfl, hwait⟩)
    | succ left =>
      unfold awaitFinal
      exact .ite_neg hfinal (.pure ⟨rfl, rfl, hwait⟩)
  | succ n ih =>
    obtain ⟨left, rfl⟩ : ∃ l, left = l + 1 := ⟨left - 1, by omega⟩
    rw [List.replicate_succ, List.cons_append] at hqueue
    obtain ⟨rfl, hmessages⟩ := List.cons.inj hqueue
    obtain ⟨m, ms, hm⟩ : ∃ m ms, s.link.messages = m :: ms := by
      rw [hmessages]
      cases n with
      | zero => exact ⟨_, _, rfl⟩
      | succ n => exact ⟨_, _, rfl⟩
    have hn' : (0 : Rat) ≤ n * pace := by positivity
    push_cast at hpatient
    unfold awaitFinal
    refine .ite_pos rfl ?_
    have hclock : Returns (monotonic (Bench.transport visits pace))
        (fun now s' => now = s.link.now ∧ s' = s) s := ⟨_, _, rfl, rfl, rfl⟩
    refine hclock.bind ?_
    rintro now s₁ ⟨hnow, hs₁⟩
    rw [hnow, hs₁]
    refine .ite_neg (by linarith) (.bind_get ?_)
    -- the message comes before the client stops waiting for it
    have hlong : pace ≤ min s.p2StarSeconds (deadline - s.link.now) :=
      le_min hwait (by linarith)
    have hnext : Returns (onLink ((Bench.transport visits pace).receiveResponse
        (min s.p2StarSeconds (deadline - s.link.now)))) (fun a s' => a = m ∧
          s'.link = { s.link with messages := ms, now := s.link.now + pace } ∧
          s'.p2StarSeconds = s.p2StarSeconds) s := by
      refine ⟨m, { s with link := { s.link with messages := ms, now := s.link.now + pace } }, ?_,
        rfl, rfl, rfl⟩
      unfold onLink Bench.transport Bench.next
      dsimp only
      rw [if_pos hlong, hm]
      rfl
    refine hnext.bind ?_
    rintro a s' ⟨rfl, hs', hseconds⟩
    have hboard : s'.link.board = s.link.board := by rw [hs']
    rw [← hboard]
    refine ih (by rw [hseconds]; exact hwait) (by omega) ?_ ?_
    · rw [hs', ← hmessages, hm]
    · rw [hs']
      dsimp only
      linarith

theorem returns_saying {m : TesterM Bench (List Byte)} {P : Board → Prop}
    (h : Returns m (fun a s' => a = r ∧ Facing pace P s') s) :
    Returns (saying q m) (fun a s' => a = r ∧ Facing pace P s') s := by
  obtain ⟨a, s', hm, ha, hs'⟩ := h
  refine ⟨a, { s' with said := s'.said ++ [⟨q, .ok a⟩] }, ?_, ha, hs'.board, hs'.waits⟩
  unfold saying
  rw [hm]
  rfl

/-- The response of the server comes back. -/
theorem returns_answer {b : Board} (hpace : 0 ≤ pace) (hwait : pace ≤ s.p2StarSeconds)
    (hfair : (visits s.link.asked).Fair pace)
    (hanswer : Bench.answer (visits s.link.asked) q s.link.board = some (r, b))
    (hsid : q.headD 0 = sid) (hfinal : finalResponse sid r = .ok r) :
    Returns (exchange (Bench.transport visits pace) q sid)
      (fun a s' => a = r ∧ Facing pace (· = b) s') s := by
  -- a final response does not ask for more time
  have hnot : r ≠ pendingResponse sid := by
    rintro rfl
    unfold finalResponse pendingResponse at hfinal
    simp at hfinal
  generalize hqueue : List.replicate (visits s.link.asked).pendings (pendingResponse sid) ++ [r] =
    queue
  obtain ⟨m, ms, rfl⟩ : ∃ m ms, queue = m :: ms := by
    rw [← hqueue]
    cases (visits s.link.asked).pendings with
    | zero => exact ⟨_, _, rfl⟩
    | succ n => exact ⟨_, _, rfl⟩
  have hrequest : Returns (onLink ((Bench.transport visits pace).request q)) (fun a s' => a = m ∧
      s'.link = ⟨b, s.link.asked + 1, ms, s.link.now⟩ ∧
      s'.p2StarSeconds = s.p2StarSeconds) s := by
    refine ⟨m, { s with link := ⟨b, s.link.asked + 1, ms, s.link.now⟩ }, ?_, rfl, rfl, rfl⟩
    unfold onLink Bench.transport
    dsimp only
    rw [hanswer]
    dsimp only
    rw [hsid, hqueue]
    rfl
  unfold exchange
  refine returns_saying (hrequest.bind ?_)
  rintro _ s₁ ⟨rfl, hs₁, hseconds⟩
  have hclock : Returns (monotonic (Bench.transport visits pace))
      (fun now s' => now = s₁.link.now ∧ s' = s₁) s₁ := ⟨_, _, rfl, rfl, rfl⟩
  refine hclock.bind ?_
  rintro now _ ⟨rfl, rfl⟩
  refine (returns_awaitFinal (n := (visits s.link.asked).pendings) hpace
    (by rw [hseconds]; exact hwait) hnot hfair.pendings ?_ ?_).bind ?_
  · rw [hs₁]
    exact hqueue.symm
  · have hpatient := hfair.patient
    linarith
  · rintro _ s₂ ⟨rfl, hs₂⟩
    refine .lift hfinal ⟨rfl, hs₂.mono fun hboard => ?_⟩
    rw [hboard, hs₁]

/-- The response that is due comes back. -/
theorem returns_exchange (hpace : 0 ≤ pace) (hv : ∀ n, (visits n).Fair pace)
    (hship : Shippable t img act version)
    (h : Facing pace (Serving t img act version ((q, r) :: rest)) s) (hsid : q.headD 0 = sid)
    (hfinal : finalResponse sid r = .ok r) :
    Returns (exchange (Bench.transport visits pace) q sid)
      (fun a s' => a = r ∧ Facing pace (Serving t img act version rest) s') s := by
  obtain ⟨b, hanswer, hb⟩ := h.board.answer hship (hv s.link.asked)
  obtain ⟨a, s', hrun, ha, hs'⟩ :=
    returns_answer hpace h.waits (hv s.link.asked) hanswer hsid hfinal
  exact ⟨a, s', hrun, ha, hs'.mono fun hboard => hboard ▸ hb⟩

variable (hpace : 0 ≤ pace) (hv : ∀ n, (visits n).Fair pace) (hship : Shippable t img act version)

include hpace hv hship

theorem returns_routineStart {routineId : Nat} {parameters : List Byte} {hi lo : Byte}
    (hid : fromBytes [hi, lo] = routineId)
    (hq : [0x31, 1] ++ toBytes 2 routineId ++ parameters = q)
    (h : Facing pace (Serving t img act version ((q, [0x71, 1, hi, lo]) :: rest)) s) :
    Returns (routineStart (Bench.transport visits pace) routineId parameters)
      (fun _ s' => Facing pace (Serving t img act version rest) s') s := by
  have hsid : q.headD 0 = 0x31 := by
    rw [← hq]
    rfl
  unfold routineStart
  dsimp only
  refine Returns.bind (Q := fun a s' => a = [0x71, 1, hi, lo] ∧
    Facing pace (Serving t img act version rest) s') ?_ ?_
  · have hq' : [sidRoutineControl, 0x01] ++ toBytes 2 routineId ++ parameters = q := hq
    rw [hq']
    exact returns_exchange hpace hv hship h hsid rfl
  · rintro _ s' ⟨rfl, h'⟩
    refine .ite_neg ?_ (.pure h')
    rintro (hlen | hfun | hecho)
    · exact hlen rfl
    · exact hfun rfl
    · exact hecho hid

theorem returns_requestDownload {address size : Nat}
    (hq : [0x34, 0, 0x44] ++ toBytes 4 address ++ toBytes 4 size = q)
    (h : Facing pace (Serving t img act version ((q, [0x74, 0x20, 0, 130]) :: rest)) s) :
    Returns (requestDownload (Bench.transport visits pace) address size)
      (fun maximum s' => maximum = 130 ∧ Facing pace (Serving t img act version rest) s') s := by
  have hsid : q.headD 0 = 0x34 := by
    rw [← hq]
    rfl
  unfold requestDownload
  dsimp only
  refine Returns.bind (Q := fun a s' => a = [0x74, 0x20, 0, 130] ∧
    Facing pace (Serving t img act version rest) s') ?_ ?_
  · have hq' : [sidRequestDownload, 0x00, 0x44] ++ toBytes 4 address ++ toBytes 4 size = q := hq
    rw [hq']
    exact returns_exchange hpace hv hship h hsid rfl
  · rintro _ s' ⟨rfl, h'⟩
    exact .ite_neg (by decide) (.ite_neg (by decide) (.pure ⟨rfl, h'⟩))

theorem returns_transferData {c : Byte} {chunk : List Byte}
    (h : Facing pace (Serving t img act version ((0x36 :: c :: chunk, [0x76, c]) :: rest)) s) :
    Returns (transferData (Bench.transport visits pace) c chunk)
      (fun _ s' => Facing pace (Serving t img act version rest) s') s := by
  unfold transferData
  refine (returns_exchange hpace hv hship h rfl rfl).bind ?_
  rintro _ s' ⟨rfl, h'⟩
  refine .ite_neg ?_ (.pure h')
  rintro (hlen | hecho)
  · exact hlen rfl
  · exact hecho rfl

theorem returns_requestTransferExit
    (h : Facing pace (Serving t img act version (([0x37], [0x77]) :: rest)) s) :
    Returns (requestTransferExit (Bench.transport visits pace))
      (fun _ s' => Facing pace (Serving t img act version rest) s') s := by
  unfold requestTransferExit
  refine (returns_exchange hpace hv hship h rfl rfl).bind ?_
  rintro _ s' ⟨rfl, h'⟩
  exact .ite_neg (by decide) (.pure h')

end UdsClient

/-! ## The image -/

/-- The bytes of a part of the file. -/
theorem take_drop_eq {n len : Nat} (h : n + len ≤ data.length) :
    (data.drop n).take len = block (byteAt data) n len := by
  unfold block
  apply List.ext_getElem
  · rw [List.length_take, List.length_drop, List.length_map, List.length_range]
    omega
  · intro i hi hi'
    rw [List.length_map, List.length_range] at hi'
    have hbyte : byteAt data (n + i) = data[n + i] := by
      unfold byteAt
      rw [List.getD_eq_getElem _ _ (by omega)]
    rw [List.getElem_take, List.getElem_drop, List.getElem_map, List.getElem_range]
    exact hbyte.symm

theorem headerOf_byteAt : BootUds.headerOf (byteAt data) = PackedImage.headerIn data := rfl

/-- A file that the gateway accepts is one that the server accepts, if its version is later. -/
theorem shippable_of_checked (h : PackedImage.Checked data t)
    (hnewer : act.isSome = true → version < (PackedImage.headerIn data).softwareVersion) :
    Shippable t (byteAt data) act version := by
  have hvalid : (BootImage.loadInfo (ImageFormat.flashed t data fun _ => 0xFF)
      (some t)).validationResult = .valid := h.loadInfo_valid
  rw [BootImage.loadInfo_valid_iff, PackedImage.headerOf_flashed_data h.length] at hvalid
  obtain ⟨hheader, hpayload⟩ := hvalid
  have hflashed : ImageFormat.flashed t data (fun _ => 0xFF) =
      NorFlash.place t.base BootConfig.slotSize (byteAt data) fun _ => 0xFF := by
    unfold ImageFormat.flashed
    rw [h.length]
    rfl
  rw [hflashed] at hpayload
  refine ⟨h.tail, ?_, fun hact => ?_⟩
  · -- the server validates the header that it has staged, not the one in flash
    unfold BootProgramming.Sound BootImage.validate
    dsimp only
    rw [headerOf_byteAt, hheader]
    exact hpayload
  · rw [headerOf_byteAt, BootVersion.compare_eq]
    have hlt := hnewer hact
    rw [if_neg (by bv_omega), if_pos hlt]

/-! ## The flasher -/

namespace V2UdsFlasher

open Gateway.UdsClient

variable (hpace : 0 ≤ pace) (hv : ∀ n, (visits n).Fair pace)

theorem returns_setState {state : FlashState} {β : Type} {k : TesterM Bench β}
    {R : β → Tester Bench → Prop} {due : List (List Byte × List Byte)}
    (h : Facing pace (Serving t img act version due) s)
    (hk : ∀ s', Facing pace (Serving t img act version due) s' → Returns k R s') :
    Returns (setState state >>= fun _ => k) R s :=
  hk { s with state := state } ⟨h.board, h.waits⟩

include hpace hv

/-- The blocks from the `i`th on. -/
theorem returns_transferLoop {i m sent total : Nat}
    (hship : Shippable t (byteAt data) act version) (hm : i * 128 + m * 128 = data.length)
    (h : Facing pace (Serving t (byteAt data) act version (transferRequests (byteAt data) (i * 128)
      (BitVec.ofNat 8 (i + 1)) (List.replicate m 128) ++ BootUds.closing)) s) :
    Returns (transferLoop (Bench.transport visits pace) .plain total i sent
        ((List.range' i m).map fun i => (data.drop (i * 128)).take 128))
      (fun all s' => all = true ∧
        Facing pace (Serving t (byteAt data) act version BootUds.closing) s') s := by
  induction m generalizing i sent s with
  | zero => exact .pure ⟨rfl, h⟩
  | succ m ih =>
    have hsequence : blockSequence .plain i = BitVec.ofNat 8 (i + 1) :=
      if_neg (by simp [FlashOptions.plain])
    have hdata : blockData .plain i ((data.drop (i * 128)).take 128) =
        block (byteAt data) (i * 128) 128 := by
      rw [← take_drop_eq (by omega)]
      exact if_neg (by simp [FlashOptions.plain])
    rw [List.range'_succ, List.map_cons]
    unfold transferLoop
    rw [hsequence, hdata]
    refine (returns_transferData hpace hv hship h).bind ?_
    rintro _ s' h'
    refine .ite_neg ?_ ?_
    · rintro ⟨stop, hstop, -⟩
      cases hstop
    · -- the server counts the blocks as the flasher does
      refine ih (by omega) ?_
      have hnext : (i + 1) * 128 = i * 128 + 128 := by omega
      have hcounter : BitVec.ofNat 8 (i + 1 + 1) = BitVec.ofNat 8 (i + 1) + 1 := by
        rw [BitVec.ofNat_add]
        rfl
      rw [hnext, hcounter]
      exact h'

theorem returns_program (h : PackedImage.Checked data t)
    (hship : Shippable t (byteAt data) act version)
    (hs : Facing pace (Serving t (byteAt data) act version
      (updateRequests t (byteAt data) (List.replicate 1792 128))) s) :
    Returns (program (Bench.transport visits pace) .plain (PackedImage.imageIn data t) data)
      (fun sent s' => sent = true ∧ Facing pace (Serving t (byteAt data) act version []) s') s := by
  have hlength : data.length = 229376 := h.length
  have haddress : imageAddress (PackedImage.imageIn data t) = t.base := by cases t <;> rfl
  have herase : [0x31, 1] ++ toBytes 2 0xFF00 ++ (toBytes 4 t.base ++ toBytes 4 229376) =
      eraseRequest t := by
    cases t <;> decide
  have hdownload : [0x34, 0, 0x44] ++ toBytes 4 t.base ++ toBytes 4 229376 = downloadRequest t := by
    cases t <;> decide
  have hchunks : transferChunks data 130 =
      .ok ((List.range' 0 1792).map fun i => (data.drop (i * 128)).take 128) := by
    unfold transferChunks
    rw [if_neg (by decide), hlength, ← List.range_eq_range']
  have heraseId : fromBytes [0xFF, 0] = 0xFF00 := rfl
  have hverifyId : fromBytes [0xFF, 1] = 0xFF01 := rfl
  unfold program send finish
  dsimp only
  rw [haddress, hlength]
  refine returns_setState hs fun s₀ h₀ => ?_
  refine (returns_routineStart hpace hv hship heraseId herase h₀).bind fun _ s₁ h₁ => ?_
  refine returns_setState h₁ fun s₂ h₂ => ?_
  refine (returns_requestDownload hpace hv hship hdownload h₂).bind ?_
  rintro _ s₃ ⟨rfl, h₃⟩
  have hlift : Returns (RaiseM.lift (transferChunks data 130)) (fun chunks s' =>
      chunks = (List.range' 0 1792).map (fun i => (data.drop (i * 128)).take 128) ∧ s' = s₃) s₃ :=
    .lift hchunks ⟨rfl, rfl⟩
  refine hlift.bind ?_
  rintro _ _ ⟨rfl, rfl⟩
  refine returns_setState h₃ fun s₄ h₄ => ?_
  refine (returns_transferLoop hpace hv hship (by omega) h₄).bind ?_
  rintro _ s₅ ⟨rfl, h₅⟩
  refine .ite_pos rfl (returns_setState h₅ fun s₆ h₆ => ?_)
  refine (returns_requestTransferExit hpace hv hship h₆).bind fun _ s₇ h₇ => ?_
  refine returns_setState h₇ fun s₈ h₈ => ?_
  refine (returns_routineStart hpace hv hship hverifyId rfl h₈).bind fun _ s₉ h₉ => ?_
  exact .pure ⟨rfl, h₉⟩

/-- What an accepted file comes to at a server that offers the update of its slot. -/
theorem returns_delivery {image : PackedImage} (hwait : pace ≤ s.p2StarSeconds)
    (hparse : PackedImage.parse data = .ok image)
    (h : Endures (.serving s.link.board)) (ho : Offers t s.link.board)
    (htarget : image.slot = (ImageFormat.slots t).id)
    (hnewer : s.link.board.ram.programming.activeSlot.isSome = true →
      s.link.board.ram.programming.activeVersion.toNat < image.version) :
    Returns (program (Bench.transport visits pace) .plain image data) (fun sent s' =>
      sent = true ∧ Endures (.serving s'.link.board) ∧ Updated t (byteAt data) s'.link.board) s := by
  obtain ⟨t', hchecked, rfl⟩ := PackedImage.checked_of_parse hparse
  -- the slot that the image names is the one that it was checked for
  obtain rfl : t' = t := by cases t <;> cases t' <;> first | rfl | cases htarget
  have hship : Shippable t' (byteAt data) s.link.board.ram.programming.activeSlot
      s.link.board.ram.programming.activeVersion := shippable_of_checked hchecked hnewer
  obtain ⟨hattended, hdue⟩ := ho.due h fullBlocks.1 fullBlocks.2
  have hserving := Facing.mk (Serving.mk hattended h hdue) hwait
  obtain ⟨sent, s', hrun, hsent, hend⟩ := returns_program hpace hv hchecked hship hserving
  exact ⟨sent, s', hrun, hsent, hend.board.serving, hend.board.due.updated⟩

/-- A file that the gateway accepts goes through: whatever turns the main loop takes between the
    requests and however often the server asks for more time, if its messages come before the client
    stops waiting for one, every request is answered as the flasher expects, and then the file is in
    the slot and waits for its activation. -/
theorem program_delivers {image : PackedImage} (hwait : pace ≤ s.p2StarSeconds)
    (hparse : PackedImage.parse data = .ok image)
    (h : Endures (.serving s.link.board)) (ho : Offers t s.link.board)
    (htarget : image.slot = (ImageFormat.slots t).id)
    (hnewer : s.link.board.ram.programming.activeSlot.isSome = true →
      s.link.board.ram.programming.activeVersion.toNat < image.version) :
    ∃ s', program (Bench.transport visits pace) .plain image data s = some (.ok true, s') ∧
      Endures (.serving s'.link.board) ∧ Updated t (byteAt data) s'.link.board := by
  obtain ⟨_, s', hrun, rfl, hend⟩ := returns_delivery hpace hv hwait hparse h ho htarget hnewer
  exact ⟨s', hrun, hend⟩

omit hpace hv

/-- The file of the update of slot B. -/
def updateFile : List Byte := (List.range 229376).map updateImage

theorem byteAt_updateFile {i : Nat} (h : i < 229376) : byteAt updateFile i = updateImage i := by
  unfold byteAt updateFile
  rw [List.getD_eq_getElem _ _ (by rwa [List.length_map, List.length_range]), List.getElem_map,
    List.getElem_range]

theorem headerIn_updateFile : PackedImage.headerIn updateFile = BootUds.headerOf updateImage := by
  apply BootImageHeader.ofBytes_congr
  intro i hi
  have hsize : BootImageHeader.size = 64 := rfl
  have hoff : PackedImage.headerOffset = 225280 := rfl
  exact byteAt_updateFile (by omega)

theorem version_updateFile : (PackedImage.imageIn updateFile .b).version = 0x02000000 := by
  unfold PackedImage.imageIn
  dsimp only
  rw [headerIn_updateFile]
  decide +kernel

theorem checked_updateFile : PackedImage.Checked updateFile .b := by
  have hlength : updateFile.length = 229376 := by
    unfold updateFile
    rw [List.length_map, List.length_range]
  have hflashed : ImageFormat.flashed .b updateFile (fun _ => 0xFF) =
      NorFlash.place Slot.b.base BootConfig.slotSize updateImage fun _ => 0xFF := by
    funext a
    unfold ImageFormat.flashed NorFlash.place
    rw [hlength]
    refine ite_congr rfl (fun ha => byteAt_updateFile ?_) fun _ => rfl
    have hsize : BootConfig.slotSize = 229376 := rfl
    omega
  have hvalid : (BootImage.loadInfo (ImageFormat.flashed .b updateFile fun _ => 0xFF)
      (some .b)).validationResult = .valid := by
    rw [hflashed]
    decide +kernel
  refine PackedImage.checked_of_valid hlength (fun i hlo hhi => ?_) ?_ hvalid
  · rw [byteAt_updateFile hhi]
    exact shippable_updateImage.tail i hlo hhi
  · rw [headerIn_updateFile]
    decide +kernel

/-- Three times more time for each request, and a turn of the main loop before it. -/
def patientVisit : Visit := ⟨[Turn.quiet], Turn.quiet, 3⟩

theorem fair_patientVisit : patientVisit.Fair 1 := by
  refine ⟨fun e he => ?_, Turn.quiet_fair, by decide, by decide, ?_⟩
  · obtain rfl := List.mem_singleton.1 he
    exact Turn.quiet_fair
  · unfold patientVisit
    norm_num

theorem program_delivers_first : ∃ b s', Endures (.serving b) ∧
    program (Bench.transport (fun _ => patientVisit) 1) .plain (PackedImage.imageIn updateFile .b)
      updateFile ⟨⟨b, 0, [], 0⟩, 5, .selectTarget, []⟩ = some (.ok true, s') ∧
    Endures (.serving s'.link.board) ∧ Updated .b (byteAt updateFile) s'.link.board := by
  obtain ⟨b, hb, ho, -, hversion⟩ := exists_updatable
  obtain ⟨s', hend⟩ := program_delivers (s := ⟨⟨b, 0, [], 0⟩, 5, .selectTarget, []⟩) zero_le_one
    (fun _ => fair_patientVisit) (by norm_num) checked_updateFile.parse hb ho rfl (fun _ => by
      rw [version_updateFile, hversion]
      decide)
  exact ⟨b, s', hb, hend⟩

end V2UdsFlasher

end Gateway
