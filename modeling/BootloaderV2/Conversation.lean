import BootloaderV2.FlasherV2
import BootloaderV2.Lib.Logging
import Mathlib.Data.List.Forall2

/-!
# What the flasher says

Whatever it is that answers the flasher, what it says keeps to a plan: nothing is erased before the
ECU has been found fit for the image, and every later request follows the positive response to the one
before it.
-/

namespace Gateway

open RaiseM

/-! ## Plans -/

/-- A request, and the responses with which the flasher goes on. -/
structure Planned where
  request : List Byte
  Expects : List Byte → Prop

/-- The plan has been said to its end and answered as expected. -/
def Finished (plan : List Planned) (said : List Exchanged) : Prop :=
  List.Forall₂ (fun p x => x.request = p.request ∧ ∃ r, x.result = .ok r ∧ p.Expects r) plan said

/-- The plan has been followed up to some request, all those before it answered as expected. -/
inductive Follows : List Planned → List Exchanged → Prop where
  | nothing {l : List Planned} : Follows l []
  | last {p : Planned} {plan : List Planned} {x : Exchanged} (h : x.request = p.request) :
    Follows (p :: plan) [x]
  | next {p : Planned} {plan : List Planned} {x : Exchanged} {said : List Exchanged} {r : List Byte}
    (h : x.request = p.request) (hr : x.result = .ok r) (hp : p.Expects r)
    (hrest : Follows plan said) : Follows (p :: plan) (x :: said)

theorem Finished.append {plan plan' : List Planned} {said said' : List Exchanged}
    (h : Finished plan said) (h' : Finished plan' said') : Finished (plan ++ plan') (said ++ said') :=
  List.rel_append h h'

theorem Follows.append {plan : List Planned} {said : List Exchanged} (h : Follows plan said)
    (plan' : List Planned) : Follows (plan ++ plan') said := by
  induction h with
  | nothing => exact .nothing
  | last h => exact .last h
  | next h hr hp _ ih => exact .next h hr hp ih

/-! ## The plan of an update -/

def eraseParameters (image : PackedImage) (firmware : List Byte) : List Byte :=
  toBytes 4 (imageAddress image) ++ toBytes 4 firmware.length

def erasure (image : PackedImage) (firmware : List Byte) : Planned :=
  ⟨[0x31, 1, 0xFF, 0] ++ eraseParameters image firmware, fun r => r = [0x71, 1, 0xFF, 0]⟩

/-- A download that is answered with this maximum block length. -/
def download (image : PackedImage) (firmware : List Byte) (maximum : Nat) : Planned :=
  ⟨[0x34, 0, 0x44] ++ eraseParameters image firmware, fun r =>
    r.head? = some 0x74 ∧ fromBytes (r.drop 2) = maximum⟩

/-- The blocks of these chunks, from the one with this index on. -/
def blocks (o : FlashOptions) (index : Nat) : List (List Byte) → List Planned
  | [] => []
  | chunk :: chunks =>
    let sequence := V2UdsFlasher.blockSequence o index
    ⟨[0x36, sequence] ++ V2UdsFlasher.blockData o index chunk, fun r => r = [0x76, sequence]⟩ ::
      blocks o (index + 1) chunks

def closing : List Planned :=
  [⟨[0x37], fun r => r = [0x77]⟩, ⟨[0x31, 1, 0xFF, 1], fun r => r = [0x71, 1, 0xFF, 1]⟩]

def resetting : Planned := ⟨[0x11, 1], fun r => r = [0x51, 1]⟩

/-- What follows the download, in the blocks that its response allows. -/
def sending (o : FlashOptions) (firmware : List Byte) (maximum : Nat) : List Planned :=
  match transferChunks firmware maximum with
  | .ok chunks => blocks o 0 chunks ++ closing
  | .error _ => []

/-- From the erasure to the verification. -/
def programming (o : FlashOptions) (image : PackedImage) (firmware : List Byte) (maximum : Nat) :
    List Planned :=
  erasure image firmware :: download image firmware maximum :: sending o firmware maximum

/-! ## What comes before it -/

/-- A request that changes the slots or starts them: none of a session, a key or an identifier, nor the
    commissioning of the journal. -/
def Programs (q : List Byte) : Prop :=
  q.headD 0 ≠ 0x10 ∧ q.headD 0 ≠ 0x27 ∧ q.headD 0 ≠ 0x22 ∧ q.take 4 ≠ [0x31, 1, 0xFF, 2]

/-- Nothing that programs has been said. -/
def Harmless (said : List Exchanged) : Prop := ∀ x ∈ said, ¬ Programs x.request

/-- The ECU has taken the key for its seed. -/
def Unlocked (said : List Exchanged) : Prop :=
  ∃ seed : List Byte, ⟨[0x27, 1], .ok ([0x67, 1] ++ seed)⟩ ∈ said ∧
    ⟨[0x27, 2] ++ toBytes 4 (calculateKey (fromBytes seed)), .ok [0x67, 2]⟩ ∈ said

/-- The journal is valid and without a fault, or the ECU has none to read. -/
def JournalReady (said : List Exchanged) : Prop :=
  (∃ data status, ⟨[0x22, 0xF1, 0x04], .ok ([0x62, 0xF1, 0x04] ++ data)⟩ ∈ said ∧
    UpdateStatus.parse data = .ok status ∧ status.valid = true ∧ status.fault = false) ∨
  ∃ nrc : Byte, (nrc = 0x11 ∨ nrc = 0x31) ∧
    ⟨[0x22, 0xF1, 0x04], .error (.negativeResponse 0x22 nrc)⟩ ∈ said

/-- Last of all the ECU has named its active slot `a`, its target `t` and its version `v`: the image is
    for the target, which is not active, and newer than the active one. -/
def Suits (image : PackedImage) (said : List Exchanged) : Prop :=
  ∃ before, ∃ a t : Byte, ∃ v : List Byte,
    said = before ++ [⟨[0x22, 0xF1, 0x01], .ok [0x62, 0xF1, 0x01, a]⟩,
      ⟨[0x22, 0xF1, 0x03], .ok [0x62, 0xF1, 0x03, t]⟩,
      ⟨[0x22, 0xF1, 0x02], .ok ([0x62, 0xF1, 0x02] ++ v)⟩] ∧
    t.toNat = image.slot ∧
    (a = 255 ∧ t = 0 ∨ (a = 0 ∧ t = 1 ∨ a = 1 ∧ t = 0) ∧ fromBytes v < image.version)

/-- The ECU has been found fit for the image. -/
structure Cleared (o : FlashOptions) (image : PackedImage) (said : List Exchanged) : Prop where
  harmless : Harmless said
  unlocked : o.skipSecurity = false → Unlocked said
  journal : JournalReady said
  suits : Suits image said
  address : o.address = none ∨ o.address = some (imageAddress image)

namespace UdsClient

variable {σ : Type} {T : Transport σ} {q : List Byte} {sid : Byte}

/-- The request has been sent, and something has become of it. -/
def Asked (q : List Byte) (l : List Exchanged) : Prop := ∃ result, l = [⟨q, result⟩]

/-- The request has been answered with `P`. -/
def Got (q : List Byte) (P : List Byte → Prop) (l : List Exchanged) : Prop :=
  ∃ r, l = [⟨q, .ok r⟩] ∧ P r

/-- The request has come to nothing; a negative response is that of the ECU. -/
def Failed (q : List Byte) (l : List Exchanged) (e : Raised) : Prop :=
  l = [⟨q, .error e⟩] ∨ Asked q l ∧ ∃ message, e = .udsError message

theorem Failed.asked {l : List Exchanged} {e : Raised} (h : Failed q l e) : Asked q l := by
  rcases h with h | h
  · exact ⟨_, h⟩
  · exact h.1

end UdsClient

/-! ## The parts of the flasher -/

theorem Harmless.nil : Harmless [] := fun _ h => absurd h List.not_mem_nil

theorem Harmless.append {l l' : List Exchanged} (h : Harmless l) (h' : Harmless l') :
    Harmless (l ++ l') := by
  intro x hx
  rcases List.mem_append.1 hx with hx | hx
  · exact h x hx
  · exact h' x hx

theorem UdsClient.Asked.harmless {q : List Byte} {l : List Exchanged} (h : Asked q l)
    (hq : ¬ Programs q) : Harmless l := by
  obtain ⟨result, rfl⟩ := h
  intro x hx
  obtain rfl := List.mem_singleton.1 hx
  exact hq

theorem UdsClient.Got.harmless {q : List Byte} {P : List Byte → Prop} {l : List Exchanged}
    (h : Got q P l) (hq : ¬ Programs q) : Harmless l := by
  obtain ⟨r, hl, -⟩ := h
  exact Asked.harmless ⟨_, hl⟩ hq

/-- An identifier programs nothing. -/
theorem not_programs_did {n : Nat} : ¬ Programs (UdsClient.didRequest n) := fun h => h.2.2.1 rfl

theorem Unlocked.append {l : List Exchanged} (h : Unlocked l) (l' : List Exchanged) :
    Unlocked (l ++ l') := by
  obtain ⟨seed, hseed, hkey⟩ := h
  exact ⟨seed, List.mem_append_left _ hseed, List.mem_append_left _ hkey⟩

theorem JournalReady.append {l : List Exchanged} (h : JournalReady l) (l' : List Exchanged) :
    JournalReady (l ++ l') := by
  rcases h with ⟨data, status, hmem, h⟩ | ⟨nrc, h, hmem⟩
  · exact .inl ⟨data, status, List.mem_append_left _ hmem, h⟩
  · exact .inr ⟨nrc, h, List.mem_append_left _ hmem⟩

namespace V2UdsFlasher

open UdsClient

variable {σ α : Type} {T : Transport σ} {o : FlashOptions} {image : PackedImage}
  {firmware : List Byte}

/-- The request of F104 and its answer. -/
def Reported (l : List Exchanged) (status : UpdateStatus) : Prop :=
  ∃ data, l = [⟨[0x22, 0xF1, 0x04], .ok ([0x62, 0xF1, 0x04] ++ data)⟩] ∧
    UpdateStatus.parse data = .ok status

theorem Reported.harmless {l : List Exchanged} {status : UpdateStatus} (h : Reported l status) :
    Harmless l := by
  obtain ⟨data, rfl, -⟩ := h
  exact Asked.harmless (q := didRequest 0xF104) ⟨_, rfl⟩ not_programs_did

theorem Reported.ready {l : List Exchanged} {status : UpdateStatus} (h : Reported l status)
    (hready : requireReady status = .ok ()) : JournalReady l := by
  obtain ⟨data, rfl, hparse⟩ := h
  refine .inl ⟨data, status, by simp, hparse, ?_⟩
  unfold requireReady at hready
  split at hready
  · cases hready
  · split at hready
    · cases hready
    · rename_i hfault hvalid
      exact ⟨by simpa using hvalid, by simpa using hfault⟩

theorem UdsClient.Got.finished {q : List Byte} {P : List Byte → Prop} {l : List Exchanged}
    (h : Got q P l) : Finished [⟨q, P⟩] l := by
  obtain ⟨r, rfl, hr⟩ := h
  exact .cons ⟨rfl, r, rfl, hr⟩ .nil

end V2UdsFlasher

end Gateway
