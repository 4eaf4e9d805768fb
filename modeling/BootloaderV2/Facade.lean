import BootloaderV2.Commands

/-!
# The driver and its facade on machine words

`flash_driver.c` and `boot_flash.c` once more, with their arguments, windows and sums as 32-bit words
and the comparisons as the code makes them.  For every argument they agree with the functions on
natural numbers that the rest of the development uses, so that no range check overflows.
-/

open BootConfig NorFlash CrashM

/-- Windows that end below the 24 address bits of the command controller. -/
structure BootFlash.State.Bounded (f : BootFlash.State) : Prop where
  start_le : f.targetStart ≤ f.targetEnd
  end_le : f.targetEnd ≤ 0x1000000

/-- A range of words between two limits, compared without computing its end. -/
def within32 (start stop : Nat) (address size : Word) : Bool :=
  size != 0 && decide (BitVec.ofNat 32 start ≤ address) &&
    decide (address < BitVec.ofNat 32 stop) && decide (size ≤ BitVec.ofNat 32 stop - address)

theorem toNat_ofNat_of_lt {n : Nat} (h : n < 2 ^ 32) : (BitVec.ofNat 32 n).toNat = n := by
  rw [BitVec.toNat_ofNat, Nat.mod_eq_of_lt h]

theorem ne_zero_iff_toNat {w : Word} : (w != 0) = decide (w.toNat ≠ 0) := by
  rw [Bool.eq_iff_iff, bne_iff_ne, decide_eq_true_eq]
  exact not_congr BitVec.toNat_inj.symm

theorem span32_eq {start stop : Nat} {address size : Word} (hstart : start < 2 ^ 32)
    (hstop : stop < 2 ^ 32) :
    (decide (BitVec.ofNat 32 start ≤ address) && decide (address < BitVec.ofNat 32 stop) &&
      decide (size ≤ BitVec.ofNat 32 stop - address)) =
    (decide (start ≤ address.toNat) && decide (address.toNat < stop) &&
      decide (size.toNat ≤ stop - address.toNat)) := by
  have hs := toNat_ofNat_of_lt hstart
  have he := toNat_ofNat_of_lt hstop
  simp only [BitVec.le_def, BitVec.lt_def, hs, he]
  by_cases hlt : address.toNat < stop
  · -- the subtraction is only made below the end of the window
    have hsub : (BitVec.ofNat 32 stop - address).toNat = stop - address.toNat := by
      rw [BitVec.toNat_sub_of_le (by rw [BitVec.le_def, he]; omega), he]
    rw [hsub]
  · simp [hlt]

theorem within32_eq {start stop : Nat} {address size : Word} (hle : start ≤ stop)
    (hstop : stop < 2 ^ 32) : within32 start stop address size =
      (decide (size.toNat ≠ 0) && decide (start ≤ address.toNat) && decide (address.toNat < stop) &&
        decide (size.toNat ≤ stop - address.toNat)) := by
  have hspan := @span32_eq start stop address size (lt_of_le_of_lt hle hstop) hstop
  unfold within32
  rw [ne_zero_iff_toNat]
  simp only [Bool.and_assoc] at hspan ⊢
  rw [hspan]

namespace FlashDriver

/-- `range_ok`. -/
def rangeOk32 (f : BootFlash.State) (address size : Word) : Bool :=
  within32 f.targetStart f.targetEnd address size

/-- The address as `command` writes it to the controller, in three bytes. -/
def fccob (address : Word) : Nat := (address.setWidth 24).toNat

/-- `FlashDriver_Verify`. -/
def verify32 (address : Word) (data : Nat → Byte) (size : Word) : BootM Bool := do
  let ram ← BootM.getRam
  if !rangeOk32 ram.flash address size then return false
  let mem ← BootM.flash
  return decide (∀ i, i < size.toNat → mem (address + BitVec.ofNat 32 i).toNat = data i)

/-- `FlashDriver_Erase`. -/
def erase32 (address size : Word) : BootM Bool := do
  let ram ← BootM.getRam
  if !rangeOk32 ram.flash address size || size != BitVec.ofNat 32 flashSectorSize ||
      address &&& BitVec.ofNat 32 (flashSectorSize - 1) != 0 then return false
  if !(← BootM.device (issue (.erase (fccob address) flashSectorSize))) then return false
  let mem ← BootM.flash
  return decide (∀ i, i < size.toNat → mem (address + BitVec.ofNat 32 i).toNat = 0xFF)

def programPhrase32 (address : Word) (phrase : Nat → Byte) : BootM Bool :=
  if TwoCopy.blank phrase flashPhraseSize then pure true
  else BootM.device (issue (.program (fccob address) flashPhraseSize phrase))

/-- The loop of `FlashDriver_Program`, with `n` phrases to go. -/
def programLoop32 (address : Word) (data : Nat → Byte) : Word → Nat → BootM Bool
  | _, 0 => return true
  | offset, n + 1 => do
    if !(← programPhrase32 (address + offset) fun i => data (offset.toNat + i)) then return false
    if !(← verify32 (address + offset) (fun i => data (offset.toNat + i))
        (BitVec.ofNat 32 flashPhraseSize)) then return false
    programLoop32 address data (offset + BitVec.ofNat 32 flashPhraseSize) n

/-- The check of the pointer to the data, which must lie in SRAM. -/
def sourceOk32 (source size : Word) : Bool :=
  decide (BitVec.ofNat 32 sramBaseAddress ≤ source) &&
    decide (source < BitVec.ofNat 32 sramApplicationEndAddress) &&
    decide (size ≤ BitVec.ofNat 32 sramApplicationEndAddress - source)

/-- The same check on natural numbers. -/
def sourceOk (source size : Nat) : Bool :=
  decide (sramBaseAddress ≤ source) && decide (source < sramApplicationEndAddress) &&
    decide (size ≤ sramApplicationEndAddress - source)

/-- `FlashDriver_Program` of the bytes `data` at `source`. -/
def program32 (address source : Word) (data : Nat → Byte) (size : Word) : BootM Bool := do
  let ram ← BootM.getRam
  if !rangeOk32 ram.flash address size ||
      address &&& BitVec.ofNat 32 (flashPhraseSize - 1) != 0 ||
      size &&& BitVec.ofNat 32 (flashPhraseSize - 1) != 0 || !sourceOk32 source size then
    return false
  programLoop32 address data 0 (size.toNat / flashPhraseSize)

def withWindow32 (start stop : Word) (m : BootM Bool) : BootM Bool :=
  withWindow start.toNat stop.toNat m

def journalAddress32 (copy : Word) : Word :=
  BitVec.ofNat 32 journalCopy0Address + copy * BitVec.ofNat 32 flashSectorSize

def journalErase32 (copy : Word) : BootM Bool :=
  if 1 < copy then return false
  else withWindow32 (journalAddress32 copy) (journalAddress32 copy + BitVec.ofNat 32 flashSectorSize)
    (erase32 (journalAddress32 copy) (BitVec.ofNat 32 flashSectorSize))

def journalProgram32 (copy offset source : Word) (data : Nat → Byte) (size : Word) : BootM Bool :=
  if 1 < copy ∨ BitVec.ofNat 32 journalRecordSize ≤ offset ∨
      BitVec.ofNat 32 journalRecordSize - offset < size then return false
  else withWindow32 (journalAddress32 copy)
    (journalAddress32 copy + BitVec.ofNat 32 journalRecordSize)
    (program32 (journalAddress32 copy + offset) source data size)

def metadataAddress32 (slot copy : Word) : Word :=
  BitVec.ofNat 32 metadataSlotACopy0Address + (slot * 2 + copy) * BitVec.ofNat 32 flashSectorSize

def metadataErase32 (slot copy : Word) : BootM Bool :=
  if 1 < slot ∨ 1 < copy then return false
  else withWindow32 (metadataAddress32 slot copy)
    (metadataAddress32 slot copy + BitVec.ofNat 32 flashSectorSize)
    (erase32 (metadataAddress32 slot copy) (BitVec.ofNat 32 flashSectorSize))

def metadataProgram32 (slot copy offset source : Word) (data : Nat → Byte) (size : Word) :
    BootM Bool :=
  if 1 < slot ∨ 1 < copy ∨ BitVec.ofNat 32 metadataRecordSize ≤ offset ∨
      BitVec.ofNat 32 metadataRecordSize - offset < size then return false
  else withWindow32 (metadataAddress32 slot copy)
    (metadataAddress32 slot copy + BitVec.ofNat 32 metadataRecordSize)
    (program32 (metadataAddress32 slot copy + offset) source data size)

/-! ### Agreement with the functions on natural numbers -/

variable {f : BootFlash.State} {b : Board} {address offset size : Word}

theorem toNat_add_of_le {n : Nat} (h : address.toNat + n ≤ 0x1000000) :
    (address + BitVec.ofNat 32 n).toNat = address.toNat + n := by
  rw [BitVec.toNat_add, toNat_ofNat_of_lt (by omega), Nat.mod_eq_of_lt (by omega)]

/-- A mask of low bits is a remainder. -/
theorem mask_ne_zero (k : Nat) (hk : k < 32) :
    (address &&& BitVec.ofNat 32 (2 ^ k - 1) != 0) = (address.toNat % 2 ^ k != 0) := by
  have hlt : 2 ^ k - 1 < 2 ^ 32 :=
    lt_of_le_of_lt (Nat.sub_le _ _) (Nat.pow_lt_pow_right (by decide) hk)
  have hmod : (address &&& BitVec.ofNat 32 (2 ^ k - 1)).toNat = address.toNat % 2 ^ k := by
    rw [BitVec.toNat_and, toNat_ofNat_of_lt hlt, Nat.and_two_pow_sub_one_eq_mod]
  rw [Bool.eq_iff_iff, bne_iff_ne, bne_iff_ne, ← hmod]
  exact not_congr BitVec.toNat_inj.symm

theorem rangeOk32_eq (h : f.Bounded) :
    rangeOk32 f address size = rangeOk f address.toNat size.toNat := by
  have hstop : f.targetEnd < 2 ^ 32 := by
    have := h.end_le
    omega
  unfold rangeOk32
  rw [within32_eq h.start_le hstop]
  rfl

theorem sourceOk32_eq {source : Word} :
    sourceOk32 source size = sourceOk source.toNat size.toNat := by
  unfold sourceOk32 sourceOk
  apply span32_eq
  · unfold sramBaseAddress
    omega
  · unfold sramApplicationEndAddress
    omega

/-- An address below the limit reaches the controller as it is. -/
theorem fccob_eq (h : address.toNat < 0x1000000) : fccob address = address.toNat := by
  unfold fccob
  rw [BitVec.toNat_setWidth, Nat.mod_eq_of_lt h]

theorem bind_congr_done {α β : Type} {m : BootM α} {g g' : α → BootM β}
    (h : ∀ a b', m b = .done a b' → g a b' = g' a b') : (m >>= g) b = (m >>= g') b := by
  simp only [bind]
  cases hm : m b with
  | done a b' => exact h a b' hm
  | cut b' => rfl

/-- What is read back, byte by byte. -/
theorem readback_eq {mem data : Nat → Byte} (h : address.toNat + size.toNat ≤ 0x1000000) :
    decide (∀ i, i < size.toNat → mem (address + BitVec.ofNat 32 i).toNat = data i) =
      decide (∀ i, i < size.toNat → mem (address.toNat + i) = data i) := by
  refine decide_eq_decide.2 (forall_congr' fun i => imp_congr_right fun hi => ?_)
  rw [toNat_add_of_le (by omega)]

theorem verify32_eq {data : Nat → Byte} (h : b.ram.flash.Bounded) :
    verify32 address data size b = verify address.toNat data size.toNat b := by
  show (if !rangeOk32 b.ram.flash address size then _ else _ : BootM Bool) b =
    (if !rangeOk b.ram.flash address.toNat size.toNat then _ else _ : BootM Bool) b
  rw [rangeOk32_eq h]
  split
  · rfl
  · rename_i hrange
    have hle := (rangeOk_iff.1 (by simpa using hrange)).2.2
    show Outcome.done _ b = Outcome.done _ b
    rw [readback_eq (le_trans hle h.end_le)]

theorem erase32_eq (h : b.ram.flash.Bounded) :
    erase32 address size b = erase address.toNat size.toNat b := by
  have hmask : (address &&& BitVec.ofNat 32 (flashSectorSize - 1) != 0) =
      (address.toNat % flashSectorSize != 0) := mask_ne_zero 12 (by decide)
  have hsize : (size != BitVec.ofNat 32 flashSectorSize) = (size.toNat != flashSectorSize) := by
    rw [Bool.eq_iff_iff, bne_iff_ne, bne_iff_ne]
    exact not_congr BitVec.toNat_inj.symm
  show (if !rangeOk32 b.ram.flash address size || size != BitVec.ofNat 32 flashSectorSize ||
      address &&& BitVec.ofNat 32 (flashSectorSize - 1) != 0 then _ else _ : BootM Bool) b =
    (if !rangeOk b.ram.flash address.toNat size.toNat || size.toNat != flashSectorSize ||
      address.toNat % flashSectorSize != 0 then _ else _ : BootM Bool) b
  rw [rangeOk32_eq h, hsize, hmask]
  split
  · rfl
  · rename_i hc
    simp only [Bool.or_eq_true, not_or, Bool.not_eq_true', Bool.not_eq_false, bne_iff_ne,
      not_not] at hc
    have hle := (rangeOk_iff.1 hc.1.1).2.2
    have hend := h.end_le
    have hbelow : address.toNat + size.toNat ≤ 0x1000000 := le_trans hle hend
    have hpos : size.toNat ≠ 0 := (rangeOk_iff.1 hc.1.1).1
    have hcommand : Command.erase (fccob address) flashSectorSize =
        .erase address.toNat size.toNat := by
      rw [fccob_eq (by omega), hc.1.2]
    rw [hcommand]
    refine bind_congr_done fun ok b' _ => ?_
    split
    · rfl
    · show Outcome.done _ b' = Outcome.done _ b'
      rw [readback_eq hbelow]

/-- The state of the driver after a command. -/
theorem device_ram {α : Type} {m : CrashM (Device Note) α} {a : α} {b' : Board}
    (h : BootM.device m b = .done a b') : b'.ram = b.ram := by
  unfold BootM.device CrashM.zoom at h
  cases hm : m b.dev with
  | done a d =>
    rw [hm] at h
    cases h
    rfl
  | cut d =>
    rw [hm] at h
    cases h

theorem programPhrase_ram {address : Nat} {phrase : Nat → Byte} {ok : Bool} {b' : Board}
    (h : programPhrase address phrase b = .done ok b') : b'.ram = b.ram := by
  unfold programPhrase at h
  split at h
  · cases h
    rfl
  · exact device_ram h

theorem verify_ram {address n : Nat} {data : Nat → Byte} {ok : Bool} {b' : Board}
    (h : verify address data n b = .done ok b') : b' = b := by
  have hq : Issues (fun _ _ _ => True) (verify address data n) (fun _ b' => b' = b) b :=
    issues_verify
  exact hq.of_done h

/-- The loop runs over the same addresses. -/
theorem programLoop32_eq {data : Nat → Byte} {n : Nat} (h : b.ram.flash.Bounded)
    (hn : address.toNat + (offset.toNat + flashPhraseSize * n) ≤ 0x1000000) :
    programLoop32 address data offset n b = programLoop address.toNat data offset.toNat n b := by
  induction n generalizing b offset with
  | zero => rfl
  | succ n ih =>
    rw [Nat.mul_succ, show flashPhraseSize = 8 from rfl] at hn
    have hsum : (address + offset).toNat = address.toNat + offset.toNat := by
      rw [BitVec.toNat_add, Nat.mod_eq_of_lt (by omega)]
    have hnext : (offset + BitVec.ofNat 32 flashPhraseSize).toNat =
        offset.toNat + flashPhraseSize := toNat_add_of_le (by
      rw [show flashPhraseSize = 8 from rfl]
      omega)
    have hphrase : ∀ phrase, programPhrase32 (address + offset) phrase =
        programPhrase (address.toNat + offset.toNat) phrase := by
      intro phrase
      unfold programPhrase32 programPhrase
      rw [fccob_eq (by omega), hsum]
    unfold programLoop32 programLoop
    rw [hphrase]
    refine bind_congr_done fun ok b₁ h₁ => ?_
    have hram₁ := programPhrase_ram h₁
    split
    · rfl
    have hverify : verify32 (address + offset) (fun i => data (offset.toNat + i))
        (BitVec.ofNat 32 flashPhraseSize) b₁ =
        verify (address.toNat + offset.toNat) (fun i => data (offset.toNat + i)) flashPhraseSize
          b₁ := by
      rw [verify32_eq (by rw [hram₁]; exact h), hsum]
      rfl
    have htail : ∀ (ok : Bool) (b₂ : Board), verify (address.toNat + offset.toNat)
        (fun i => data (offset.toNat + i)) flashPhraseSize b₁ = .done ok b₂ →
        (if (!ok) = true then Pure.pure false
          else programLoop32 address data (offset + BitVec.ofNat 32 flashPhraseSize) n : BootM Bool)
          b₂ =
        (if (!ok) = true then Pure.pure false
          else programLoop address.toNat data (offset.toNat + flashPhraseSize) n : BootM Bool) b₂ := by
      intro ok b₂ h₂
      have hb₂ := verify_ram h₂
      split
      · rfl
      · rw [ih (by rw [hb₂, hram₁]; exact h) (by rw [hnext, show flashPhraseSize = 8 from rfl]; omega),
          hnext]
    simp only [bind, hverify]
    cases hv : verify (address.toNat + offset.toNat) (fun i => data (offset.toNat + i))
        flashPhraseSize b₁ with
    | done ok b₂ => exact htail ok b₂ hv
    | cut b₂ => rfl

/-- `FlashDriver_Program` with data in SRAM. -/
theorem program32_eq {source : Word} {data : Nat → Byte} (h : b.ram.flash.Bounded) :
    program32 address source data size b =
      if sourceOk source.toNat size.toNat then program address.toNat data size.toNat b
      else .done false b := by
  have hmask : ∀ w : Word, (w &&& BitVec.ofNat 32 (flashPhraseSize - 1) != 0) =
      (w.toNat % flashPhraseSize != 0) := fun w => mask_ne_zero 3 (by decide)
  show (if !rangeOk32 b.ram.flash address size ||
      address &&& BitVec.ofNat 32 (flashPhraseSize - 1) != 0 ||
      size &&& BitVec.ofNat 32 (flashPhraseSize - 1) != 0 || !sourceOk32 source size
      then _ else _ : BootM Bool) b =
    if sourceOk source.toNat size.toNat then
      (if !rangeOk b.ram.flash address.toNat size.toNat || address.toNat % flashPhraseSize != 0 ||
        size.toNat % flashPhraseSize != 0 then _ else _ : BootM Bool) b
    else _
  rw [rangeOk32_eq h, hmask, hmask, sourceOk32_eq]
  by_cases hsource : sourceOk source.toNat size.toNat = true
  · rw [if_pos hsource, hsource, Bool.not_true, Bool.or_false]
    split
    · rfl
    · rename_i hc
      simp only [Bool.or_eq_true, not_or, Bool.not_eq_true', Bool.not_eq_false] at hc
      have hle := (rangeOk_iff.1 hc.1.1).2.2
      refine programLoop32_eq h ?_
      have hdiv : flashPhraseSize * (size.toNat / flashPhraseSize) ≤ size.toNat :=
        Nat.mul_div_le _ _
      have hend := h.end_le
      show address.toNat + (0 + flashPhraseSize * (size.toNat / flashPhraseSize)) ≤ _
      omega
  · rw [if_neg hsource, if_pos (by simp [hsource])]
    rfl

/-! ### The storages -/

/-- A copy as the storages take it. -/
def copyOf (copy : Word) : Option (Fin 2) :=
  if h : copy.toNat < 2 then some ⟨copy.toNat, h⟩ else none

theorem copyOf_cases (copy : Word) : (1 < copy ∧ copyOf copy = none) ∨
    ∃ k : Fin 2, ¬ 1 < copy ∧ copy = BitVec.ofNat 32 k.val ∧ copyOf copy = some k := by
  unfold copyOf
  by_cases h : copy.toNat < 2
  · refine .inr ⟨⟨copy.toNat, h⟩, ?_, ?_, by rw [dif_pos h]⟩
    · rw [BitVec.lt_def, show (1 : Word).toNat = 1 from rfl]
      omega
    · rw [BitVec.ofNat_toNat, BitVec.setWidth_eq]
  · refine .inl ⟨?_, by rw [dif_neg h]⟩
    rw [BitVec.lt_def, show (1 : Word).toNat = 1 from rfl]
    omega

theorem withWindow_congr {start stop : Nat} {m m' : BootM Bool}
    (h : ∀ b', b'.ram.flash.targetStart = start → b'.ram.flash.targetEnd = stop → m b' = m' b') :
    withWindow start stop m b = withWindow start stop m' b := by
  unfold withWindow setWindow
  simp only [bind, BootM.getRam, BootM.setFlash, CrashM.modify]
  rw [h _ rfl rfl]

theorem journalAddress32_eq (k : Fin 2) :
    (journalAddress32 (BitVec.ofNat 32 k.val)).toNat = journalAddress k := by
  match k with
  | 0 => rfl
  | 1 => rfl

/-- One of the storages: `base32` is the address of a sector as a word. -/
theorem windowErase32_eq {base32 : Word} {base : Nat} (hbase : base32.toNat = base)
    (hend : base + flashSectorSize ≤ 0x1000000) :
    withWindow32 base32 (base32 + BitVec.ofNat 32 flashSectorSize)
      (erase32 base32 (BitVec.ofNat 32 flashSectorSize)) b =
    withWindow base (base + flashSectorSize) (erase base flashSectorSize) b := by
  have hstop : (base32 + BitVec.ofNat 32 flashSectorSize).toNat = base + flashSectorSize := by
    rw [toNat_add_of_le (by rw [hbase]; exact hend), hbase]
  unfold withWindow32
  rw [hbase, hstop]
  refine withWindow_congr fun b' hs he => ?_
  rw [erase32_eq ⟨by omega, by omega⟩, hbase]
  rfl

/-- A program call with a pointer to its data. -/
def checked (source : Word) (size : Nat) (m : BootM Bool) : BootM Bool :=
  if sourceOk source.toNat size then m else Pure.pure false

/-- A storage runs its program call in a window of its own, whether the pointer is good or not. -/
theorem withWindow_checked {start stop n : Nat} {source : Word} {m : BootM Bool} :
    withWindow start stop (checked source n m) b = checked source n (withWindow start stop m) b := by
  unfold checked
  split <;> rfl

theorem windowProgram32_eq {base32 offset source size : Word} {base limit : Nat}
    {data : Nat → Byte} (hbase : base32.toNat = base) (hend : base + limit ≤ 0x1000000)
    (hoffset : offset.toNat ≤ limit) :
    withWindow32 base32 (base32 + BitVec.ofNat 32 limit)
      (program32 (base32 + offset) source data size) b =
    checked source size.toNat
      (withWindow base (base + limit) (program (base + offset.toNat) data size.toNat)) b := by
  have hstop : (base32 + BitVec.ofNat 32 limit).toNat = base + limit := by
    rw [toNat_add_of_le (by rw [hbase]; exact hend), hbase]
  have hsum : (base32 + offset).toNat = base + offset.toNat := by
    rw [BitVec.toNat_add, hbase, Nat.mod_eq_of_lt (by omega)]
  unfold withWindow32
  rw [hbase, hstop, ← withWindow_checked]
  refine withWindow_congr fun b' hs he => ?_
  rw [program32_eq ⟨by omega, by omega⟩, hsum]
  unfold checked
  split <;> rfl

/-- The offset check of a storage. -/
theorem limit32_iff {limit : Nat} (hlimit : limit < 2 ^ 32) :
    (BitVec.ofNat 32 limit ≤ offset ∨ BitVec.ofNat 32 limit - offset < size) ↔
      (limit ≤ offset.toNat ∨ limit - offset.toNat < size.toNat) := by
  have hl := toNat_ofNat_of_lt hlimit
  rw [BitVec.le_def, hl]
  by_cases hle : limit ≤ offset.toNat
  · simp [hle]
  · have hsub : (BitVec.ofNat 32 limit - offset).toNat = limit - offset.toNat := by
      rw [BitVec.toNat_sub_of_le (by rw [BitVec.le_def, hl]; omega), hl]
    rw [BitVec.lt_def, hsub]

theorem journalErase32_eq {copy : Word} :
    journalErase32 copy b = match copyOf copy with
      | none => .done false b
      | some k => journalErase k b := by
  unfold journalErase32
  rcases copyOf_cases copy with ⟨h, hc⟩ | ⟨k, h, hk, hc⟩
  · rw [if_pos h, hc]
    rfl
  · have hj := (View.journalAddress_range k).2
    have hlim : metadataSlotACopy0Address ≤ 0x1000000 := by decide
    rw [if_neg h, hc, hk]
    exact windowErase32_eq (journalAddress32_eq k) (by omega)

theorem journalProgram32_eq {copy source : Word} {data : Nat → Byte} :
    journalProgram32 copy offset source data size b = match copyOf copy with
      | none => .done false b
      | some k => checked source size.toNat (journalProgram k offset.toNat data size.toNat) b := by
  unfold journalProgram32
  have hlimit := @limit32_iff offset size journalRecordSize (by decide)
  rcases copyOf_cases copy with ⟨h, hc⟩ | ⟨k, h, hk, hc⟩
  · rw [if_pos (.inl h), hc]
    rfl
  · rw [hc]
    dsimp only
    unfold journalProgram
    by_cases ho : journalRecordSize ≤ offset.toNat ∨ journalRecordSize - offset.toNat < size.toNat
    · rw [if_pos (.inr (hlimit.2 ho)), if_pos ho]
      unfold checked
      split <;> rfl
    · have hj := (View.journalAddress_range k).2
      have hlim : metadataSlotACopy0Address ≤ 0x1000000 := by decide
      have hsector : journalRecordSize ≤ flashSectorSize := by decide
      rw [if_neg (not_or.2 ⟨h, fun hw => ho (hlimit.1 hw)⟩), if_neg ho, hk]
      exact windowProgram32_eq (journalAddress32_eq k) (by omega) (by omega)

theorem metadataAddress32_eq (s : Slot) (k : Fin 2) :
    (metadataAddress32 s.code (BitVec.ofNat 32 k.val)).toNat = metadataAddress s k := by
  match s, k with
  | .a, 0 => rfl
  | .a, 1 => rfl
  | .b, 0 => rfl
  | .b, 1 => rfl

/-- A slot as the storage of the metadata takes it. -/
def slotOf (slot : Word) : Option Slot := SlotId.ofCode slot

theorem slotOf_cases (slot : Word) : (1 < slot ∧ slotOf slot = none) ∨
    ∃ s : Slot, ¬ 1 < slot ∧ slot = s.code ∧ slotOf slot = some s := by
  by_cases h : 1 < slot
  · refine .inl ⟨h, ?_⟩
    unfold slotOf SlotId.ofCode
    rw [if_neg, if_neg]
    · rintro rfl
      exact absurd h (by decide)
    · rintro rfl
      exact absurd h (by decide)
  · obtain ⟨s, rfl⟩ := BootJournal.slot_of_le_one h
    exact .inr ⟨s, h, rfl, SlotId.ofCode_slot s⟩

theorem metadataAddress_le (s : Slot) (k : Fin 2) :
    metadataAddress s k + flashSectorSize ≤ 0x1000000 :=
  le_trans (View.metadataAddress_range s k).2 (by decide)

theorem metadataErase32_eq {slot copy : Word} :
    metadataErase32 slot copy b = match slotOf slot, copyOf copy with
      | some s, some k => metadataErase s k b
      | _, _ => .done false b := by
  unfold metadataErase32
  rcases slotOf_cases slot with ⟨h, hc⟩ | ⟨s, h, hs, hc⟩
  · rw [if_pos (.inl h), hc]
    rfl
  rcases copyOf_cases copy with ⟨h', hc'⟩ | ⟨k, h', hk, hc'⟩
  · rw [if_pos (.inr h'), hc, hc']
    rfl
  · rw [if_neg (not_or.2 ⟨h, h'⟩), hc, hc', hs, hk]
    exact windowErase32_eq (metadataAddress32_eq s k) (metadataAddress_le s k)

theorem metadataProgram32_eq {slot copy source : Word} {data : Nat → Byte} :
    metadataProgram32 slot copy offset source data size b = match slotOf slot, copyOf copy with
      | some s, some k =>
        checked source size.toNat (metadataProgram s k offset.toNat data size.toNat) b
      | _, _ => .done false b := by
  unfold metadataProgram32
  have hlimit := @limit32_iff offset size metadataRecordSize (by decide)
  rcases slotOf_cases slot with ⟨h, hc⟩ | ⟨s, h, hs, hc⟩
  · rw [if_pos (.inl h), hc]
    rfl
  rcases copyOf_cases copy with ⟨h', hc'⟩ | ⟨k, h', hk, hc'⟩
  · rw [if_pos (.inr (.inl h')), hc, hc']
    rfl
  · rw [hc, hc']
    dsimp only
    unfold metadataProgram
    by_cases ho : metadataRecordSize ≤ offset.toNat ∨ metadataRecordSize - offset.toNat < size.toNat
    · rw [if_pos (.inr (.inr (hlimit.2 ho))), if_pos ho]
      unfold checked
      split <;> rfl
    · have hm := metadataAddress_le s k
      have hsector : metadataRecordSize ≤ flashSectorSize := by decide
      rw [if_neg (by
        rintro (hw | hw | hw)
        · exact h hw
        · exact h' hw
        · exact ho (hlimit.1 hw)), if_neg ho, hs, hk]
      exact windowProgram32_eq (metadataAddress32_eq s k) (by omega) (by omega)

end FlashDriver
