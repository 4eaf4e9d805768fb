import BootloaderV2.Authorisation
import BootloaderV2.Bursts
import BootloaderV2.CrashSafety
import BootloaderV2.Mirrored
import BootloaderV2.Services

/-!
# Status reports

The layouts of DIDs 0xF104 and 0xF105 are written in `boot_uds.c` and read again in
`update_status.py` and `boot_status.py`.  The reader rejects values out of range, so it accepts a
report because of what the variables hold in every state that the bootloader comes to.
-/

open BootConfig CrashM TwoCopy

/-! ## The readers -/

namespace Unpack

/-- A byte of a `struct.unpack` format. -/
def u8 (data : List Byte) (i : Nat) : Nat := (data.getD i 0).toNat

/-- Four bytes of a `struct.unpack` format, in network byte order. -/
def u32 (data : List Byte) (i : Nat) : Nat :=
  ((u8 data i * 256 + u8 data (i + 1)) * 256 + u8 data (i + 2)) * 256 + u8 data (i + 3)

end Unpack

open Unpack

/-- `update_status.py`. -/
structure UpdateStatus where
  valid : Bool
  fault : Bool
  transactionId : Nat
  state : Nat
  active : Nat
  target : Nat
  expected : Nat
  committed : Nat
  result : Nat
  deriving DecidableEq, Repr

namespace UpdateStatus

/-- The length of `STATES`. -/
def states : Nat := 10

/-- The length of `RESULTS`. -/
def results : Nat := 12

def isSlot (slot : Nat) : Bool := slot == 0 || slot == 1 || slot == 0x7FFFFFFF

def parse (data : List Byte) : Except String UpdateStatus :=
  if data.length ≠ 32 then .error "Malformed F104 length"
  else
    let abi := u8 data 0
    let valid := u8 data 1
    let fault := u8 data 2
    let reserved := u8 data 3
    if abi ≠ 1 ∨ 1 < valid ∨ 1 < fault ∨ reserved ≠ 0 then
      .error "Unsupported/malformed F104 format"
    else
      let transaction := u32 data 4
      let state := u32 data 8
      let active := u32 data 12
      let target := u32 data 16
      let expected := u32 data 20
      let committed := u32 data 24
      let result := u32 data 28
      if states ≤ state ∨ results ≤ result ∨ expected < committed ∨
          !(isSlot active && isSlot target) then .error "Malformed F104 fields"
      else .ok ⟨valid != 0, fault != 0, transaction, state, active, target, expected, committed,
        result⟩

end UpdateStatus

/-- `boot_status.py`: one slot. -/
structure SlotLifecycle where
  valid : Bool
  state : Nat
  attempts : Nat
  version : Nat
  sequence : Nat
  deriving DecidableEq, Repr

structure BootStatus where
  active : Nat
  lastReset : Nat
  slotA : SlotLifecycle
  slotB : SlotLifecycle
  result : Nat
  failedSlot : Nat
  rollbackTarget : Nat
  storageFault : Bool
  failedVersion : Nat
  lastAttemptCount : Nat
  deriving DecidableEq, Repr

namespace BootStatus

/-- The keys of `STATES`. -/
def isState (state : Nat) : Bool := decide (state ≤ 6) || state == 0xFE

/-- The length of `RESULTS`. -/
def results : Nat := 7

/-- The length of `RESETS`. -/
def resets : Nat := 9

def isSlot (slot : Nat) : Bool := slot == 0 || slot == 1 || slot == 255

def parse (data : List Byte) : Except String BootStatus :=
  if data.length ≠ 40 then .error "Malformed F105 length"
  else
    let abi := u8 data 0
    let mask := u8 data 1
    let active := u8 data 2
    let reset := u8 data 3
    let astate := u8 data 4
    let aattempt := u8 data 5
    let aversion := u32 data 8
    let aseq := u32 data 12
    let bstate := u8 data 16
    let battempt := u8 data 17
    let bversion := u32 data 20
    let bseq := u32 data 24
    let result := u8 data 28
    let failed := u8 data 29
    let rollback := u8 data 30
    let fault := u8 data 31
    let failedver := u32 data 32
    let attempts := u32 data 36
    if abi ≠ 1 ∨ 3 < mask ∨ !isSlot active ∨ resets ≤ reset ∨ results ≤ result ∨ 1 < fault then
      .error "Unsupported/malformed F105 format"
    else if !isState astate ∨ !isState bstate ∨ !isSlot failed ∨ !isSlot rollback then
      .error "Malformed F105 fields"
    else .ok ⟨active, reset, ⟨mask % 2 == 1, astate, aattempt, aversion, aseq⟩,
      ⟨mask / 2 % 2 == 1, bstate, battempt, bversion, bseq⟩, result, failed, rollback, fault != 0,
      failedver, attempts⟩

end BootStatus

/-! ## The reports -/

/-- A word comes back from its four bytes. -/
theorem BootUds.write32_toNat (w : Word) :
    (((w >>> 24).setWidth 8 : Byte).toNat * 256 + ((w >>> 16).setWidth 8 : Byte).toNat) * 256 =
      w.toNat / 65536 * 256 ∧
    (w.toNat / 65536 * 256 + ((w >>> 8).setWidth 8 : Byte).toNat) * 256 +
      (w.setWidth 8 : Byte).toNat = w.toNat := by
  have hw := w.isLt
  simp only [BitVec.toNat_setWidth, BitVec.toNat_ushiftRight, Nat.shiftRight_eq_div_pow]
  constructor <;> omega

theorem Unpack.u32_write32 {w : Word} {data : List Byte} {i : Nat}
    (h : (data.drop i).take 4 = BootUds.write32 w) : u32 data i = w.toNat := by
  obtain ⟨hhigh, hlow⟩ := BootUds.write32_toNat w
  have hbyte : ∀ k, k < 4 → u8 data (i + k) = ((BootUds.write32 w).getD k 0).toNat := by
    intro k hk
    unfold u8
    rw [← h, List.getD_eq_getElem?_getD, List.getD_eq_getElem?_getD, List.getElem?_take_of_lt hk,
      List.getElem?_drop]
  have h0 := hbyte 0 (by decide)
  rw [Nat.add_zero] at h0
  unfold u32
  rw [h0, hbyte 1 (by decide), hbyte 2 (by decide), hbyte 3 (by decide)]
  simp only [BootUds.write32, List.getD_cons_zero, List.getD_cons_succ]
  rw [hhigh, hlow]

/-- A small word comes back from its low byte. -/
theorem setWidth_byte_toNat {w : Word} (h : w.toNat < 256) : (w.setWidth 8 : Byte).toNat = w.toNat := by
  rw [BitVec.toNat_setWidth]
  exact Nat.mod_eq_of_lt h

theorem BootUds.flag_toNat (v : Bool) : (flag v).toNat = v.toNat := by cases v <;> rfl

/-- The journal in RAM is the one that is not read yet, or one that has been validated. -/
def BootUpdate.Known (u : State) : Prop :=
  u.current = unknownJournal ∨ BootJournal.validate u.current = true

/-- What `update_status.py` requires of a journal. -/
structure BootUpdate.Reportable (j : BootUpdateJournal) : Prop where
  state : j.state.toNat < UpdateStatus.states
  result : j.lastResult.toNat < UpdateStatus.results
  committed : j.committedSize.toNat ≤ j.expectedSize.toNat
  active : UpdateStatus.isSlot j.activeSlot.toNat = true
  target : UpdateStatus.isSlot j.targetSlot.toNat = true

theorem BootUpdate.Known.reportable {u : State} (h : Known u) : Reportable u.current := by
  rcases h with h | h
  · rw [h]
    exact ⟨by decide, by decide, by decide, by decide, by decide⟩
  · unfold BootJournal.validate at h
    split at h
    · cases h
    rename_i hn
    push Not at hn
    obtain ⟨-, -, -, -, hstate, hresult, hactive, htarget, -, -, hcommitted, -, -⟩ := hn
    have hslot : ∀ w : Word, w ≤ 1 ∨ w = SlotId.unknownCode → UpdateStatus.isSlot w.toNat = true := by
      intro w hw
      unfold UpdateStatus.isSlot
      rcases hw with hw | rfl
      · have : w.toNat ≤ 1 := hw
        rcases Nat.le_one_iff_eq_zero_or_eq_one.1 this with h0 | h1
        · rw [h0]
          rfl
        · rw [h1]
          rfl
      · rfl
    refine ⟨?_, ?_, ?_, hslot _ ?_, hslot _ (.inl (BitVec.not_lt.1 htarget))⟩
    · have : u.current.state.toNat ≤ 9 := BitVec.not_lt.1 hstate
      unfold UpdateStatus.states
      omega
    · have : u.current.lastResult.toNat ≤ 11 := BitVec.not_lt.1 hresult
      unfold UpdateStatus.results
      omega
    · exact BitVec.not_lt.1 hcommitted
    · by_cases hle : u.current.activeSlot ≤ 1
      · exact .inl hle
      · exact .inr (hactive (BitVec.not_le.1 hle))

/-- The reader gets from a report what the variables hold. -/
theorem UpdateStatus.parse_journalReport {u : BootUpdate.State} (h : BootUpdate.Known u) :
    (BootUds.journalReport u).length = 32 ∧
    parse (BootUds.journalReport u) = .ok {
      valid := u.journalValid
      fault := u.storageFault
      transactionId := u.current.transactionId.toNat
      state := u.current.state.toNat
      active := u.current.activeSlot.toNat
      target := u.current.targetSlot.toNat
      expected := u.current.expectedSize.toNat
      committed := u.current.committedSize.toNat
      result := if u.storageFault then 9 else u.current.lastResult.toNat } := by
  have hr := h.reportable
  refine ⟨rfl, ?_⟩
  have hvalid : u8 (BootUds.journalReport u) 1 = u.journalValid.toNat := BootUds.flag_toNat _
  have hfault : u8 (BootUds.journalReport u) 2 = u.storageFault.toNat := BootUds.flag_toNat _
  have hresult : u32 (BootUds.journalReport u) 28 =
      if u.storageFault then 9 else u.current.lastResult.toNat := by
    rw [u32_write32 (w := if u.storageFault then BootUpdateResult.journalError.code
      else u.current.lastResult) rfl]
    cases u.storageFault <;> rfl
  have hlast : u32 (BootUds.journalReport u) 28 < results := by
    rw [hresult]
    split
    · decide
    · exact hr.result
  unfold parse
  rw [if_neg (show ¬ (BootUds.journalReport u).length ≠ 32 from fun h => h rfl)]
  dsimp only
  rw [hvalid, hfault, u32_write32 (w := u.current.transactionId) (i := 4) rfl,
    u32_write32 (w := u.current.state) (i := 8) rfl,
    u32_write32 (w := u.current.activeSlot) (i := 12) rfl,
    u32_write32 (w := u.current.targetSlot) (i := 16) rfl,
    u32_write32 (w := u.current.expectedSize) (i := 20) rfl,
    u32_write32 (w := u.current.committedSize) (i := 24) rfl]
  rw [if_neg, if_neg, ← hresult]
  · cases u.journalValid <;> cases u.storageFault <;> rfl
  · rw [hr.active, hr.target]
    have hstate := hr.state
    have hcommitted := hr.committed
    simp only [Bool.and_self, Bool.not_true, Bool.false_eq_true, or_false]
    omega
  · have hv := u.journalValid.toNat_le
    have hf := u.storageFault.toNat_le
    have habi : u8 (BootUds.journalReport u) 0 = 1 := rfl
    have hreserved : u8 (BootUds.journalReport u) 3 = 0 := rfl
    omega

namespace BootLifecycle

/-- The result of the last trial is one that there is, and so are the slots it names. -/
structure Diagnosed (l : State) : Prop where
  result : l.lastResult ≤ BootLifecycleResult.metadataError.code
  failed : l.failedSlot ≤ 1 ∨ l.failedSlot = SlotId.unknownCode
  rollback : l.rollbackTarget ≤ 1 ∨ l.rollbackTarget = SlotId.unknownCode

/-- A slot whose status is VALID has a valid record. -/
def Trusted (l : State) : Prop :=
  ∀ s, l.metadataStatus s = .valid → BootMetadata.validate s (l.metadata s) = true

theorem trusted_reloaded (l : State) (mem : Nat → Byte) : Trusted (reloaded l mem) := by
  intro s hs
  have hs' : BootMetadata.status (BootMetadata.load s mem) = .valid := hs
  rw [reloaded_metadata]
  cases hl : BootMetadata.load s mem with
  | valid k r =>
    have hcopy := (BootMetadata.recordFormat s).copy_of_load hl
    exact ((BootMetadata.recordFormat s).copy_eq_some.1 hcopy).1
  | empty | invalid =>
    rw [hl] at hs'
    cases hs'

/-- A slot as the reader should see it. -/
def seen (l : State) (s : Slot) : SlotLifecycle where
  valid := l.metadataStatus s == .valid
  state := match l.metadataStatus s with
    | .valid => (l.metadata s).state.toNat
    | .empty => 0
    | .invalid => 0xFE
  attempts := if l.metadataStatus s = .valid then (l.metadata s).bootAttempts.toNat else 0
  version := (l.metadata s).imageVersion.toNat
  sequence := (l.metadata s).sequence.toNat

/-- A slot that a variable names, as the reader should see it. -/
def seenSlot (code : Word) : Nat := if code = SlotId.unknownCode then 255 else code.toNat

theorem slotCodeByte_toNat {code : Word} (h : code ≤ 1 ∨ code = SlotId.unknownCode) :
    (BootUds.slotCodeByte code).toNat = seenSlot code ∧
      BootStatus.isSlot (seenSlot code) = true := by
  rcases h with h | rfl
  · have hle : code.toNat ≤ 1 := h
    have hcode : code = 0 ∨ code = 1 := by
      rcases Nat.le_one_iff_eq_zero_or_eq_one.1 hle with h0 | h1
      · exact .inl (BitVec.eq_of_toNat_eq h0)
      · exact .inr (BitVec.eq_of_toNat_eq h1)
    rcases hcode with rfl | rfl <;> decide
  · decide

/-- What a valid record holds fits a byte. -/
theorem bounds_of_validate {s : Slot} {r : BootSlotMetadata}
    (h : BootMetadata.validate s r = true) :
    r.state.toNat ≤ 6 ∧ r.bootAttempts.toNat ≤ 3 ∧
      r.lastResult ≤ BootLifecycleResult.metadataError.code ∧
      (r.failedSlot ≤ 1 ∨ r.failedSlot = SlotId.unknownCode) ∧
      (r.rollbackTarget ≤ 1 ∨ r.rollbackTarget = SlotId.unknownCode) := by
  simp only [BootMetadata.validate, Bool.and_eq_true, Bool.or_eq_true, decide_eq_true_eq,
    beq_iff_eq] at h
  obtain ⟨⟨⟨⟨⟨⟨⟨⟨⟨⟨⟨-, hstate⟩, hattempts⟩, -⟩, hresult⟩, hfailed⟩, hrollback⟩, -⟩, -⟩, -⟩, -⟩, -⟩ := h.1
  exact ⟨hstate, hattempts, hresult, hfailed, hrollback⟩

/-- The bytes of a slot in the report. -/
theorem slotBytes_toNat {l : State} (h : Trusted l) (s : Slot) :
    ((match l.metadataStatus s with
      | .valid => (l.metadata s).state.setWidth 8
      | .empty => 0
      | .invalid => 0xFE : Byte).toNat = (seen l s).state ∧
      BootStatus.isState (seen l s).state = true) ∧
    (if l.metadataStatus s = .valid then (l.metadata s).bootAttempts.setWidth 8 else 0 : Byte).toNat =
      (seen l s).attempts := by
  unfold seen
  cases hs : l.metadataStatus s with
  | valid =>
    obtain ⟨hstate, hattempts, -⟩ := bounds_of_validate (h s hs)
    dsimp only
    refine ⟨⟨setWidth_byte_toNat (by omega), ?_⟩, setWidth_byte_toNat (by omega)⟩
    unfold BootStatus.isState
    rw [decide_eq_true hstate]
    rfl
  | empty => exact ⟨⟨rfl, rfl⟩, rfl⟩
  | invalid => exact ⟨⟨rfl, rfl⟩, rfl⟩

end BootLifecycle

open BootLifecycle (Diagnosed Trusted seen seenSlot) in
/-- The reader gets from a report what the variables hold. -/
theorem BootStatus.parse_lifecycleReport {ram : Ram} (hd : Diagnosed ram.lifecycle)
    (ht : Trusted ram.lifecycle) :
    (BootUds.lifecycleReport ram).length = 40 ∧
    parse (BootUds.lifecycleReport ram) = .ok {
      active := seenSlot (SlotId.code ram.programming.activeSlot)
      lastReset := ram.lifecycle.currentResetReason.code.toNat
      slotA := seen ram.lifecycle .a
      slotB := seen ram.lifecycle .b
      result := ram.lifecycle.lastResult.toNat
      failedSlot := seenSlot ram.lifecycle.failedSlot
      rollbackTarget := seenSlot ram.lifecycle.rollbackTarget
      storageFault := ram.lifecycle.storageFault
      failedVersion := ram.lifecycle.failedVersion.toNat
      lastAttemptCount := ram.lifecycle.lastAttemptCount.toNat } := by
  refine ⟨rfl, ?_⟩
  obtain ⟨⟨hastate, haok⟩, haattempt⟩ := BootLifecycle.slotBytes_toNat ht .a
  obtain ⟨⟨hbstate, hbok⟩, hbattempt⟩ := BootLifecycle.slotBytes_toNat ht .b
  obtain ⟨hfailed, hfailedok⟩ := BootLifecycle.slotCodeByte_toNat hd.failed
  obtain ⟨hrollback, hrollbackok⟩ := BootLifecycle.slotCodeByte_toNat hd.rollback
  have hresultle : ram.lifecycle.lastResult.toNat ≤ 6 := hd.result
  have hresult := setWidth_byte_toNat (w := ram.lifecycle.lastResult) (by omega)
  have hfault := BootUds.flag_toNat ram.lifecycle.storageFault
  have hactive : (BootUds.slotByte ram.programming.activeSlot).toNat =
      seenSlot (SlotId.code ram.programming.activeSlot) ∧
      isSlot (seenSlot (SlotId.code ram.programming.activeSlot)) = true := by
    rcases ram.programming.activeSlot with _ | _ | _ <;> decide
  have hreset : (ram.lifecycle.currentResetReason.code.setWidth 8 : Byte).toNat =
      ram.lifecycle.currentResetReason.code.toNat ∧
      ram.lifecycle.currentResetReason.code.toNat < resets := by
    cases ram.lifecycle.currentResetReason <;> decide
  -- bit 0 of the mask stands for slot A, bit 1 for slot B
  have hmask : ∀ a b : Bool, (BootUds.flag a ||| BootUds.flag b <<< 1).toNat ≤ 3 ∧
      ((BootUds.flag a ||| BootUds.flag b <<< 1).toNat % 2 == 1) = a ∧
      ((BootUds.flag a ||| BootUds.flag b <<< 1).toNat / 2 % 2 == 1) = b := by decide
  obtain ⟨hmaskle, hmaska, hmaskb⟩ := hmask (ram.lifecycle.metadataStatus .a == .valid)
    (ram.lifecycle.metadataStatus .b == .valid)
  have hbytes : u8 (BootUds.lifecycleReport ram) 0 = 1 ∧
      u8 (BootUds.lifecycleReport ram) 2 = seenSlot (SlotId.code ram.programming.activeSlot) ∧
      u8 (BootUds.lifecycleReport ram) 3 = ram.lifecycle.currentResetReason.code.toNat ∧
      u8 (BootUds.lifecycleReport ram) 4 = (seen ram.lifecycle .a).state ∧
      u8 (BootUds.lifecycleReport ram) 5 = (seen ram.lifecycle .a).attempts ∧
      u8 (BootUds.lifecycleReport ram) 16 = (seen ram.lifecycle .b).state ∧
      u8 (BootUds.lifecycleReport ram) 17 = (seen ram.lifecycle .b).attempts ∧
      u8 (BootUds.lifecycleReport ram) 28 = ram.lifecycle.lastResult.toNat ∧
      u8 (BootUds.lifecycleReport ram) 29 = seenSlot ram.lifecycle.failedSlot ∧
      u8 (BootUds.lifecycleReport ram) 30 = seenSlot ram.lifecycle.rollbackTarget ∧
      u8 (BootUds.lifecycleReport ram) 31 = ram.lifecycle.storageFault.toNat :=
    ⟨rfl, hactive.1, hreset.1, hastate, haattempt, hbstate, hbattempt, hresult, hfailed, hrollback,
      hfault⟩
  obtain ⟨h0, h2, h3, h4, h5, h16, h17, h28, h29, h30, h31⟩ := hbytes
  have hmaskbyte : u8 (BootUds.lifecycleReport ram) 1 =
      (BootUds.flag (ram.lifecycle.metadataStatus .a == .valid) |||
        BootUds.flag (ram.lifecycle.metadataStatus .b == .valid) <<< 1).toNat := rfl
  unfold parse
  rw [if_neg (show ¬ (BootUds.lifecycleReport ram).length ≠ 40 from fun h => h rfl)]
  dsimp only
  rw [h0, hmaskbyte, h2, h3, h4, h5, h16, h17, h28, h29, h30, h31,
    u32_write32 (w := (ram.lifecycle.metadata .a).imageVersion) (i := 8) rfl,
    u32_write32 (w := (ram.lifecycle.metadata .a).sequence) (i := 12) rfl,
    u32_write32 (w := (ram.lifecycle.metadata .b).imageVersion) (i := 20) rfl,
    u32_write32 (w := (ram.lifecycle.metadata .b).sequence) (i := 24) rfl,
    u32_write32 (w := ram.lifecycle.failedVersion) (i := 32) rfl,
    u32_write32 (w := ram.lifecycle.lastAttemptCount) (i := 36) rfl, hmaska, hmaskb]
  -- neither of the two range checks of the reader objects
  rw [if_neg, if_neg]
  · cases ram.lifecycle.storageFault <;> rfl
  · rw [haok, hbok, hfailedok, hrollbackok]
    decide
  · have hf := ram.lifecycle.storageFault.toNat_le
    have hresets := hreset.2
    rw [hactive.2]
    unfold results
    simp only [Bool.not_true, Bool.false_eq_true, false_or]
    omega

/-! ## What every state has -/

/-- Both reports can be read. -/
structure Reporting (b : Board) : Prop where
  journal : BootUpdate.Known b.ram.update
  lifecycle : BootLifecycle.Diagnosed b.ram.lifecycle

/-- `m` keeps the reports readable. -/
def Reports {α : Type} (m : BootM α) : Prop :=
  ∀ b, Reporting b → Ensures m (fun _ b' => Reporting b') b

/-- `m` leaves a known journal and the variables of the lifecycle alone. -/
def Records {α : Type} (m : BootM α) : Prop :=
  ∀ b, BootUpdate.Known b.ram.update →
    Ensures m (fun _ b' => BootUpdate.Known b'.ram.update ∧ b'.ram.lifecycle = b.ram.lifecycle) b

theorem Records.reports {α : Type} {m : BootM α} (h : Records m) : Reports m := by
  intro b hb
  refine (h b hb.journal).mono fun _ b' hb' => ⟨hb'.1, ?_⟩
  rw [hb'.2]
  exact hb.lifecycle

theorem records_sequential : Sequenced @Records where
  pure _ _ h := .pure ⟨h, rfl⟩
  bind hm hf b h := (hm b h).bind fun a b' hb' =>
    (hf a b' hb'.1).mono fun _ _ hb'' => ⟨hb''.1, hb''.2.trans hb'.2⟩
  get _ h := ⟨h, rfl⟩

theorem reports_sequential : Sequenced @Reports where
  pure _ _ h := .pure h
  bind hm hf b h := (hm b h).bind fun a b' hb' => hf a b' hb'
  get _ h := h

theorem BootJournal.Current.validate {m : Nat → Byte} {j : BootUpdateJournal}
    (h : BootJournal.Current m j) : BootJournal.validate j = true := by
  obtain ⟨k, hk⟩ := h
  exact (recordFormat.copy_eq_some.1 (recordFormat.copy_of_load hk)).1

namespace BootFlash

theorem records_configureSlots {active target : SlotId} :
    Records (configureSlots active target) := by
  intro b h
  refine (Ensures.of_issues (BootProgramming.issues_configureSlots (R := fun _ _ _ => True))).mono ?_
  rintro - - ⟨-, f, rfl⟩
  exact ⟨h, rfl⟩

theorem records_erase {address size : Nat} : Records (erase address size) := by
  intro b h
  refine ensures_erase.mono ?_
  rintro - - ⟨d, rfl, -⟩
  exact ⟨h, rfl⟩

theorem records_program {address size : Nat} {data : Nat → Byte} :
    Records (program address data size) := by
  intro b h
  refine ensures_program.mono ?_
  rintro - - ⟨d, rfl, -⟩
  exact ⟨h, rfl⟩

end BootFlash

theorem BootImageInstall.records_validateAndPublish {active target : SlotId}
    {header : BootImageHeader} : Records (validateAndPublish active target header) := by
  have h := records_sequential
  refine h.flash fun _ => h.ite (h.pure _) <| h.ite (h.pure _) <|
    h.bind BootFlash.records_configureSlots fun _ => h.ite (h.pure _) <|
    h.bind BootFlash.records_erase fun _ => h.ite (h.pure _) <|
    h.bind BootFlash.records_program fun _ => h.ite (h.pure _) <| h.flash fun _ => h.pure _

namespace BootUpdate

/-- A variable of the journal that its report does not name. -/
theorem records_setUpdate {g : State → State} (hg : ∀ u, (g u).current = u.current) :
    Records (BootM.setUpdate g) := by
  intro b h
  have hknown : Known (g b.ram.update) := by
    unfold Known
    rw [hg]
    exact h
  exact ⟨hknown, rfl⟩

theorem records_save {next : BootUpdateJournal} : Records (save next) := by
  refine records_sequential.getRam fun _ => records_sequential.ite (records_sequential.pure _) ?_
  intro b h
  refine (Ensures.of_issues BootJournal.issues_commit).bind ?_
  rintro res b' ⟨d, rfl, hends⟩
  cases res with
  | none => exact .pure ⟨h, rfl⟩
  | some n =>
    obtain ⟨j, -, rfl, hn⟩ := hends.done n rfl
    exact .pure ⟨.inr hn.validate, rfl⟩

theorem records_save_or_refuse {c : Prop} [Decidable c] {next : BootUpdateJournal} :
    Records (if c then return false else save next) :=
  records_sequential.ite (records_sequential.pure _) records_save

theorem records_setState {state : BootUpdateState} : Records (setState state) :=
  records_sequential.getRam fun _ => records_save_or_refuse

theorem records_completeActivationHandoff : Records completeActivationHandoff :=
  records_sequential.getRam fun _ => records_save_or_refuse

theorem records_abort {reason : BootUpdateResult} : Records (abort reason) :=
  records_sequential.bind (records_setUpdate (by exact fun _ => rfl)) fun _ =>
    records_sequential.getRam fun _ => records_save_or_refuse

theorem records_beginUpdate {active target : SlotId} {size : Nat} :
    Records (beginUpdate active target size) :=
  records_sequential.getRam fun _ => records_sequential.ite (records_sequential.pure _) <|
    records_sequential.bind records_save fun _ =>
    records_sequential.ite (records_sequential.pure _) <|
    records_sequential.bind (records_setUpdate (by exact fun _ => rfl)) fun _ =>
    records_sequential.pure _

theorem records_setProgress {programmed : Nat} {sequence : Byte} :
    Records (setProgress programmed sequence) :=
  records_sequential.getRam fun _ => records_sequential.ite (records_sequential.pure _) <|
    records_sequential.ite (records_sequential.pure _) records_save

theorem records_markTransferComplete {header : BootImageHeader} {sequence : Byte} :
    Records (markTransferComplete header sequence) :=
  records_sequential.getRam fun _ => records_save_or_refuse

theorem records_markVerified {recovered : Bool} : Records (markVerified recovered) := by
  have hpending : Records (markPending recovered) :=
    records_sequential.getRam fun _ => records_sequential.ite (records_sequential.pure _) <|
      records_sequential.bind records_save fun _ =>
      records_sequential.ite (records_sequential.pure _) <|
      records_sequential.bind (records_setUpdate (by exact fun _ => rfl)) fun _ =>
      records_sequential.pure _
  exact records_sequential.getRam fun _ => records_sequential.ite
    (records_sequential.bind records_setState fun _ =>
      records_sequential.ite (records_sequential.pure _) hpending) hpending

theorem records_initializeJournal {active : SlotId} : Records (initializeJournal active) := by
  intro b h
  have hstore : (∀ k o, BootJournal.loadLatest b.mem ≠ .valid k o) →
      Ensures (BootJournal.initializeStore (commissionRecord active)) (fun res b' =>
        (∃ d, b' = b.setDev d) ∧ ∀ r, res = some r → BootJournal.validate r = true) b := by
    intro hno
    refine ((Ensures.of_issues BootJournal.issues_initializeStore).and
      (.of_wp (BootJournal.wp_initializeStore_yields hno))).mono ?_
    rintro res b' ⟨⟨d, rfl, -⟩, hres⟩
    refine ⟨⟨d, rfl⟩, fun r hr => ?_⟩
    rw [(hres r hr).1]
    exact BootJournal.validate_completed 1 (wellFormed_commissionRecord active)
  have hrun : (∀ k o, BootJournal.loadLatest b.mem ≠ .valid k o) →
      Ensures (initializeUnset b.mem active)
        (fun _ b' => Known b'.ram.update ∧ b'.ram.lifecycle = b.ram.lifecycle) b := by
    intro hno
    refine .ite (fun _ => .pure ⟨h, rfl⟩) fun _ => (hstore hno).bind ?_
    rintro res b' ⟨⟨d, rfl⟩, hvalid⟩
    cases res with
    | none => exact ⟨h, rfl⟩
    | some r => exact ⟨.inr (hvalid r rfl), rfl⟩
  unfold initializeJournal
  rw [Ensures.bind_flash]
  cases hl : BootJournal.loadLatest b.mem with
  | valid k j => exact .pure ⟨h, rfl⟩
  | empty | invalid =>
    apply hrun
    intro k o hko
    rw [hl] at hko
    cases hko

theorem records_revalidate {action : BootRecoveryAction} : Records (revalidate action) := by
  have h := records_sequential
  refine h.getRam fun _ => h.bind BootImageInstall.records_validateAndPublish fun _ => h.ite ?_ ?_
  · exact h.bind records_abort fun _ => h.pure _
  · refine h.ite ?_ records_markVerified
    exact h.bind (records_setUpdate (by exact fun _ => rfl)) fun _ => h.pure _

/-- Recovery makes the journal known, whatever was in RAM. -/
theorem ensures_loadRecoveryState {b : Board} :
    Ensures loadRecoveryState (fun _ b' => Known b'.ram.update) b := by
  have h := records_sequential
  have hrest : Records recoverLoaded := by
    unfold recoverLoaded
    refine h.getRam fun ram => ?_
    have hrevalidate : ∀ action, Records (do
        if ram.update.current.state = BootUpdateState.transferComplete.code then
          if !(← setState .verifying) then return false
          revalidate action
        else revalidate action) := fun action =>
      h.ite (h.bind records_setState fun _ => h.ite (h.pure _) records_revalidate)
        records_revalidate
    dsimp only
    cases BootRecoveryPolicy.action ram.update.journalValid ram.update.current.state with
    | failSafe | normal => exact h.pure _
    | abort => exact records_abort
    | revalidate | pending => exact hrevalidate _
  unfold loadRecoveryState
  rw [Ensures.bind_flash]
  cases hl : BootJournal.loadLatest b.mem with
  | valid k j =>
    have hj : BootJournal.validate j = true := BootJournal.Current.validate ⟨k, hl⟩
    dsimp only
    rw [Ensures.bind_setUpdate]
    exact (hrest _ (.inr hj)).mono fun _ _ hb' => hb'.1
  | empty | invalid =>
    dsimp only
    rw [Ensures.bind_setUpdate]
    exact (hrest _ (.inl rfl)).mono fun _ _ hb' => hb'.1

end BootUpdate

namespace BootLifecycle

/-- `m` keeps a known journal. -/
def Knows {α : Type} (m : BootM α) : Prop :=
  ∀ b, BootUpdate.Known b.ram.update → Ensures m (fun _ b' => BootUpdate.Known b'.ram.update) b

/-- `m` keeps the result of the last trial in range. -/
def Diagnoses {α : Type} (m : BootM α) : Prop :=
  ∀ b, Diagnosed b.ram.lifecycle → Ensures m (fun _ b' => Diagnosed b'.ram.lifecycle) b

theorem knows_closed : Closed @Knows where
  pure _ _ h := .pure h
  bind hm hf b h := (hm b h).bind fun a b' hb' => hf a b' hb'
  get _ h := h
  setLifecycle _ _ h := h
  setManager _ _ h := h
  setRetained _ _ h := h
  metadata hm b h := by
    refine (Ensures.of_issues (hm b)).mono ?_
    rintro - - ⟨d, rfl, -⟩
    exact h
  handoff b h := (BootUpdate.records_completeActivationHandoff b h).mono fun _ _ hb' => hb'.1

theorem diagnoses_sequential : Sequenced @Diagnoses where
  pure _ _ h := .pure h
  bind hm hf b h := (hm b h).bind fun a b' hb' => hf a b' hb'
  get _ h := h

/-- The record that is reported is trusted. -/
theorem status_of_diagnosticSlot {l : State} {s : Slot} (h : diagnosticSlot l = some s) :
    l.metadataStatus s = .valid := by
  unfold diagnosticSlot at h
  dsimp only at h
  split at h
  · rename_i ha
    split at h
    · rename_i hb
      obtain rfl := Option.some.inj h
      rw [Bool.and_eq_true] at hb
      exact eq_of_beq hb.1
    · obtain rfl := Option.some.inj h
      exact eq_of_beq ha
  · split at h
    · rename_i hb
      obtain rfl := Option.some.inj h
      exact eq_of_beq hb
    · cases h

theorem diagnosed_captured {l : State} (h : Trusted l) : Diagnosed (captured l) := by
  unfold captured
  cases hs : diagnosticSlot l with
  | none =>
    have hnone : BootLifecycleResult.none.code ≤ BootLifecycleResult.metadataError.code := by decide
    exact ⟨hnone, .inr rfl, .inr rfl⟩
  | some s =>
    obtain ⟨-, -, hresult, hfailed, hrollback⟩ :=
      bounds_of_validate (h s (status_of_diagnosticSlot hs))
    exact ⟨hresult, hfailed, hrollback⟩

theorem diagnoses_setStorageFault : Diagnoses setStorageFault := fun _ h => ⟨h.1, h.2, h.3⟩

theorem diagnoses_reload : Diagnoses reload := fun _ h => ⟨h.1, h.2, h.3⟩

theorem diagnoses_failed : Diagnoses (do setStorageFault; return false : BootM Bool) :=
  diagnoses_sequential.bind diagnoses_setStorageFault fun _ => diagnoses_sequential.pure _

/-- The last lines of a function, whatever the variables were. -/
theorem diagnoses_report {ok : Bool} :
    Diagnoses (do reload; captureDiagnostics; return ok : BootM Bool) := by
  intro b _
  exact diagnosed_captured (trusted_reloaded b.ram.lifecycle b.mem)

theorem diagnoses_metadata {α : Type} {m : BootM α}
    (hm : ∀ b, Issues (fun c _ _ => c.InMetadata) m (fun _ => BootMetadata.Outside b) b) :
    Diagnoses m := by
  intro b h
  refine (Ensures.of_issues (hm b)).mono ?_
  rintro - - ⟨d, rfl, -⟩
  exact h

theorem ensures_init_diagnosed {b : Board} {reason : BootResetReason} :
    Ensures (init reason) (fun _ b' => Diagnosed b'.ram.lifecycle) b := by
  refine ensures_init_captured.mono ?_
  rintro - b' ⟨l, f, hl⟩
  have ht : Trusted { reloaded l b'.mem with storageFault := f } := trusted_reloaded l b'.mem
  rw [hl]
  exact diagnosed_captured ht

theorem diagnoses_select {x y : BootImageInfo} : Diagnoses (select x y) := by
  have hresult : BootLifecycleResult.noConfirmedImage.code ≤
      BootLifecycleResult.metadataError.code := by decide
  refine diagnoses_sequential.getRam fun _ => diagnoses_sequential.ite ?_
    (diagnoses_sequential.pure _)
  exact diagnoses_sequential.bind (fun _ h => ⟨hresult, h.2, h.3⟩) fun _ =>
    diagnoses_sequential.pure _

theorem diagnoses_prepareBoot {slot : Slot} : Diagnoses (prepareBoot slot) := by
  have h := diagnoses_sequential
  refine h.bind diagnoses_reload fun _ => h.getRam fun _ => h.ite (h.pure _) <| h.ite ?_ <|
    h.ite ?_ <| h.ite (h.pure _) diagnoses_report
  · exact h.bind (diagnoses_metadata fun _ => BootMetadata.issues_setState) fun _ =>
      h.ite diagnoses_failed diagnoses_report
  · exact h.bind (diagnoses_metadata fun _ => BootMetadata.issues_incrementAttempt) fun _ =>
      h.ite diagnoses_failed diagnoses_report

theorem diagnoses_confirm {slot : Slot} : Diagnoses (confirm slot) := by
  have h := diagnoses_sequential
  refine h.bind diagnoses_reload fun _ => h.getRam fun _ => h.ite (h.pure _) <|
    h.ite (h.pure _) <| h.ite (h.pure _) <| h.flash fun _ => h.bind diagnoses_select fun _ =>
    h.ite (h.pure _) ?_
  exact h.bind (diagnoses_metadata fun _ => BootMetadata.issues_setState) fun _ =>
    h.ite diagnoses_failed diagnoses_report

/-- A function of the lifecycle keeps both. -/
theorem Diagnoses.reports {α : Type} {m : BootM α} (h : Diagnoses m) (hk : Knows m) : Reports m :=
  fun b hb => ((hk b hb.journal).and (h b hb.lifecycle)).mono fun _ _ hb' => ⟨hb'.1, hb'.2⟩

theorem reports_managed : Managed @Reports where
  toSequenced := reports_sequential
  setManager _ _ h := ⟨h.1, h.2⟩
  reload := diagnoses_reload.reports (stored_reload knows_closed.stored)
  init _ := Diagnoses.reports (fun _ _ => ensures_init_diagnosed) (stored_init knows_closed.stored)
  select _ _ := diagnoses_select.reports (stored_select knows_closed.stored)
  confirm _ := diagnoses_confirm.reports (stored_confirm knows_closed.stored)
  prepareBoot _ := diagnoses_prepareBoot.reports (stored_prepareBoot knows_closed.stored)

end BootLifecycle

theorem reports_served : Served @Reports where
  toManaged := BootLifecycle.reports_managed
  setProgramming _ _ h := ⟨h.1, h.2⟩
  setSecurity _ _ h := ⟨h.1, h.2⟩
  setUds _ _ h := ⟨h.1, h.2⟩
  transmit _ h := ⟨h.1, h.2⟩
  configureSlots _ _ := BootFlash.records_configureSlots.reports
  erase _ _ := BootFlash.records_erase.reports
  program _ _ _ := BootFlash.records_program.reports
  beginUpdate _ _ _ := BootUpdate.records_beginUpdate.reports
  setState _ := BootUpdate.records_setState.reports
  setProgress _ _ := BootUpdate.records_setProgress.reports
  markTransferComplete _ _ := BootUpdate.records_markTransferComplete.reports
  markVerified _ := BootUpdate.records_markVerified.reports
  abort _ := BootUpdate.records_abort.reports
  initializeJournal _ := BootUpdate.records_initializeJournal.reports

/-- A boot makes both reports readable, whatever is on flash. -/
theorem BootManager.reporting_of_run {b₀ b₁ : Board} {exit : BootExit}
    (h : run b₀ = .done exit b₁) : Reporting b₁ := by
  have hrun : Ensures run (fun _ b' => Reporting b') b₀ := by
    have hinit : Ensures init (fun _ b' => Reporting b') b₀ := by
      unfold init
      rw [Ensures.bind_get]
      refine .skip fun _ c => BootUpdate.ensures_loadRecoveryState.bind fun _ c₁ hknown => ?_
      have hknows : Ensures (BootLifecycle.init (BootResetReason.capture b₀)) _ c₁ :=
        BootLifecycle.stored_init BootLifecycle.knows_closed.stored c₁ hknown
      refine (hknows.and BootLifecycle.ensures_init_diagnosed).bind fun _ c₂ h₂ => ?_
      exact ⟨h₂.1, h₂.2⟩
    unfold run
    exact hinit.bind fun _ c hc => booting_afterInit
      ⟨BootLifecycle.reports_managed, fun _ _ h => ⟨h.1, h.2⟩⟩ c hc
  exact hrun.of_done h

theorem Uptime.reporting {b b' : Board} (h : Uptime b b') (hb : Reporting b) : Reporting b' := by
  induction h with
  | refl => exact hb
  | tail _ hop ih =>
    cases hop with
    | start h => exact (BootUds.answered_init reports_served.answered _ ih).of_done h
    | request e h =>
      exact (BootUds.answered_processRequest reports_served.answered (e.on _) ⟨ih.1, ih.2⟩).of_done h
    | tick e h =>
      exact (BootUds.answered_mainFunction reports_served.answered (e.on _) ⟨ih.1, ih.2⟩).of_done h

namespace BootUds

/-- The board once a request has refreshed the access. -/
def accessed (b : Board) : Board :=
  { b with ram := { b.ram with programming := { b.ram.programming with
      sessionActive := b.ram.uds.session == 2, securityUnlocked := b.ram.security.unlocked } } }

theorem processRequest_F104 (b : Board) : processRequest [0x22, 0xF1, 0x04] b =
    .done (some ([0x62, 0xF1, 0x04] ++ journalReport b.ram.update)) (accessed b) := rfl

theorem processRequest_F105 (b : Board) :
    processRequest [0x22, 0xF1, 0x05] b =
      .done (some ([0x62, 0xF1, 0x05] ++ lifecycleReport
        { (accessed b).ram with lifecycle := BootLifecycle.reloaded b.ram.lifecycle b.mem }))
        { accessed b with ram := { (accessed b).ram with
            lifecycle := BootLifecycle.reloaded b.ram.lifecycle b.mem } } := rfl

end BootUds

/-- One slot of a status. -/
def BootStatus.slot (status : BootStatus) : Slot → SlotLifecycle
  | .a => status.slotA
  | .b => status.slotB

/-- A status says what the bootloader holds. -/
structure BootStatus.Shows (status : BootStatus) (b : Board) : Prop where
  active : status.active = BootLifecycle.seenSlot (SlotId.code b.ram.programming.activeSlot)
  lastReset : status.lastReset = b.ram.lifecycle.currentResetReason.code.toNat
  result : status.result = b.ram.lifecycle.lastResult.toNat
  failedSlot : status.failedSlot = BootLifecycle.seenSlot b.ram.lifecycle.failedSlot
  rollbackTarget : status.rollbackTarget = BootLifecycle.seenSlot b.ram.lifecycle.rollbackTarget
  storageFault : status.storageFault = b.ram.lifecycle.storageFault
  failedVersion : status.failedVersion = b.ram.lifecycle.failedVersion.toNat
  lastAttemptCount : status.lastAttemptCount = b.ram.lifecycle.lastAttemptCount.toNat
  /-- A slot with a valid record is shown with that record. -/
  trusted : ∀ s k r, BootMetadata.load s b.mem = .valid k r → status.slot s =
    ⟨true, r.state.toNat, r.bootAttempts.toNat, r.imageVersion.toNat, r.sequence.toNat⟩
  /-- A slot without one is shown as not valid. -/
  untrusted : ∀ s, (∀ k r, BootMetadata.load s b.mem ≠ .valid k r) → (status.slot s).valid = false

namespace BootLifecycle

theorem seen_reloaded_valid {l : State} {mem : Nat → Byte} {s : Slot} {k : Fin 2}
    {r : BootSlotMetadata} (h : BootMetadata.load s mem = .valid k r) : seen (reloaded l mem) s =
      ⟨true, r.state.toNat, r.bootAttempts.toNat, r.imageVersion.toNat, r.sequence.toNat⟩ := by
  have hstatus : (reloaded l mem).metadataStatus s = .valid := by
    show BootMetadata.status (BootMetadata.load s mem) = _
    rw [h]
    rfl
  have hmeta : (reloaded l mem).metadata s = r := by
    rw [reloaded_metadata, h]
  unfold seen
  rw [hstatus, hmeta]
  rfl

theorem seen_reloaded_invalid {l : State} {mem : Nat → Byte} {s : Slot}
    (h : ∀ k r, BootMetadata.load s mem ≠ .valid k r) :
    (seen (reloaded l mem) s).valid = false := by
  show (BootMetadata.status (BootMetadata.load s mem) == .valid) = false
  cases hl : BootMetadata.load s mem with
  | valid k r => exact absurd hl (h k r)
  | empty => rfl
  | invalid => rfl

end BootLifecycle

/-- In every state that the bootloader comes to, with or without a journal or a fault of its
    storage, the readers accept both reports and get from them what it holds. -/
theorem BootUds.reports_decode {b₀ b₁ b : Board} {exit : BootExit}
    (hrun : BootManager.run b₀ = .done exit b₁) (hup : Uptime b₁ b) (e : Turn) :
    (∃ payload b', processRequest [0x22, 0xF1, 0x04] (e.on b) =
        .done (some ([0x62, 0xF1, 0x04] ++ payload)) b' ∧ payload.length = 32 ∧
      UpdateStatus.parse payload = .ok {
        valid := b.ram.update.journalValid
        fault := b.ram.update.storageFault
        transactionId := b.ram.update.current.transactionId.toNat
        state := b.ram.update.current.state.toNat
        active := b.ram.update.current.activeSlot.toNat
        target := b.ram.update.current.targetSlot.toNat
        expected := b.ram.update.current.expectedSize.toNat
        committed := b.ram.update.current.committedSize.toNat
        result := if b.ram.update.storageFault then 9 else b.ram.update.current.lastResult.toNat }) ∧
    ∃ payload b' status, processRequest [0x22, 0xF1, 0x05] (e.on b) =
        .done (some ([0x62, 0xF1, 0x05] ++ payload)) b' ∧ payload.length = 40 ∧
      BootStatus.parse payload = .ok status ∧ status.Shows b := by
  have hb := hup.reporting (BootManager.reporting_of_run hrun)
  constructor
  · obtain ⟨hlength, hparse⟩ := UpdateStatus.parse_journalReport hb.journal
    exact ⟨_, _, processRequest_F104 (e.on b), hlength, hparse⟩
  · have hd : BootLifecycle.Diagnosed (BootLifecycle.reloaded b.ram.lifecycle b.mem) :=
      ⟨hb.lifecycle.result, hb.lifecycle.failed, hb.lifecycle.rollback⟩
    obtain ⟨hlength, hparse⟩ := @BootStatus.parse_lifecycleReport { (accessed (e.on b)).ram with
      lifecycle := BootLifecycle.reloaded b.ram.lifecycle b.mem } hd
      (BootLifecycle.trusted_reloaded _ _)
    refine ⟨_, _, _, processRequest_F105 (e.on b), hlength, hparse, ?_⟩
    refine ⟨rfl, rfl, rfl, rfl, rfl, rfl, rfl, rfl, fun s k r hl => ?_, fun s hl => ?_⟩
    · cases s with
      | a => exact BootLifecycle.seen_reloaded_valid hl
      | b => exact BootLifecycle.seen_reloaded_valid hl
    · cases s with
      | a => exact BootLifecycle.seen_reloaded_invalid hl
      | b => exact BootLifecycle.seen_reloaded_invalid hl

/-! ## The reports of a device in use -/

/-- A turn of the device that comes back is an operation of the server. -/
theorem Activity.operates {a : Activity} {e : Turn} {b b' : Board} (ha : a ≠ .boot)
    (h : a.run (e.on b) = .done true b') : Operates b b' := by
  cases a with
  | boot => exact absurd rfl ha
  | request q =>
    obtain ⟨r, hr⟩ := exists_done h
    exact .request e hr
  | tick =>
    obtain ⟨u, hu⟩ := exists_done h
    exact .tick e hu

/-- A server has been at work since the boot that ended in it. -/
theorem Endures.exists_uptime {b : Board} (h : Endures (.serving b)) :
    ∃ b₀ b₁, BootManager.run b₀ = .done .programming b₁ ∧ Uptime b₁ b := by
  generalize hp : Phase.serving b = p at h
  induction h generalizing b with
  | new h => cases hp
  | interruptBoot e he r _ ih => cases hp
  | interrupt a e he _ ha ih => cases hp
  | @boot d b' e he r _ hb ih =>
    cases hp
    obtain ⟨b₁, hrun, hinit⟩ := Activity.boot_done hb
    exact ⟨_, b₁, hrun, .single (.start hinit)⟩
  | serve a e he _ ha hb ih =>
    cases hp
    obtain ⟨b₀, b₁, hrun, hup⟩ := ih rfl
    exact ⟨b₀, b₁, hrun, hup.tail (Activity.operates ha hb)⟩

/-- After slot A has been commissioned its record is shown. -/
theorem BootUds.reports_decode_commissioned : ∃ (b : Board) (r : BootSlotMetadata)
    (boot : BootStatus), Endures (.serving b) ∧
    r.state = BootImageState.confirmed.code ∧ BootStatus.Shows boot b ∧
    boot.slot .a = ⟨true, 5, r.bootAttempts.toNat, r.imageVersion.toNat, r.sequence.toNat⟩ := by
  obtain ⟨b, hb, -, -, ⟨k, r, hr, hst⟩, -⟩ := exists_commissioned_server
  obtain ⟨b₀, b₁, hrun, hup⟩ := hb.exists_uptime
  obtain ⟨-, -, -, boot, -, -, -, hshows⟩ := BootUds.reports_decode hrun hup Turn.quiet
  have hslot := hshows.trusted .a k r hr
  rw [hst] at hslot
  exact ⟨b, r, boot, hb, hst, hshows, hslot⟩
