import BootloaderV2.Lib.NorFlash
import BootloaderV2.Lib.TwoCopy

/-!
# Writing one copy of a two-copy record

`writeCopy` erases the sector of a copy, programs the record phrase by phrase and reads it back.
A `Port` is the access a program has to the two sectors; its laws say that it issues the flash
commands one expects and does nothing else.  `wp_writeCopy` follows the write through every cut:
the copy is untouched, or holds a prefix of the new record, or all of it.
-/

namespace TwoCopy

open NorFlash CrashM

/-- The first `n` bytes are erased. -/
def blank (data : Nat → Byte) (n : Nat) : Bool := decide (∀ i, i < n → data i = 0xFF)

/-- Access to the sectors of the two copies. -/
structure Port (σ ε : Type) where
  dev : σ → Device ε
  setDev : σ → Device ε → σ
  base : Fin 2 → Nat
  sector : Nat
  phrase : Nat
  limit : Nat
  ready : σ → Prop
  erase : Fin 2 → CrashM σ Bool
  program : Fin 2 → Nat → (Nat → Byte) → CrashM σ Bool
  dev_setDev : ∀ s d, dev (setDev s d) = d
  setDev_dev : ∀ s, setDev s (dev s) = s
  setDev_setDev : ∀ s d d', setDev (setDev s d) d' = setDev s d'
  ready_setDev : ∀ s d, ready s → ready (setDev s d)
  limit_le : limit ≤ sector
  phrase_pos : 0 < phrase
  apart : ∀ k, base k + sector ≤ base (1 - k) ∨ base (1 - k) + sector ≤ base k
  wp_erase : ∀ {k s} {Q : Bool → σ → Prop} {C : σ → Prop}, ready s →
    Q true (setDev s ((dev s).after (.erase (base k) sector) sector)) →
    (∀ n s', Fate.cut n ∈ (dev s).fates → dev s' =
      (dev s).after (.erase (base k) sector) ((Command.erase (base k) sector).cutSize n) → C s') →
    (∀ n, Fate.fail n ∈ (dev s).fates → Q false (setDev s
      ((dev s).after (.erase (base k) sector) ((Command.erase (base k) sector).cutSize n)))) →
    wp (erase k) Q C s
  wp_program : ∀ {k offset data s} {Q : Bool → σ → Prop} {C : σ → Prop}, ready s →
    phrase ∣ offset → offset + phrase ≤ limit →
    Erased (dev s).mem (base k + offset) phrase →
    (blank data phrase = true → Q true s) →
    Q true (setDev s ((dev s).after (.program (base k + offset) phrase data) phrase)) →
    (∀ n s', Fate.cut n ∈ (dev s).fates →
      dev s' = (dev s).after (.program (base k + offset) phrase data) n → C s') →
    (∀ n, Fate.fail n ∈ (dev s).fates →
      Q false (setDev s ((dev s).after (.program (base k + offset) phrase data) n))) →
    wp (program k offset data) Q C s

variable {σ ε R : Type}

/-- Programs `n` phrases from `offset` on. -/
def programPhrases (P : Port σ ε) (k : Fin 2) (data : Nat → Byte) : Nat → Nat → CrashM σ Bool
  | _, 0 => pure true
  | offset, n + 1 => do
    if ← P.program k offset (fun i => data (offset + i)) then
      programPhrases P k data (offset + P.phrase) n
    else pure false

/-- Writes `next` to copy `k` and returns what is read back. -/
def writeCopy (F : Format R) (P : Port σ ε) (k : Fin 2) (next : R) : CrashM σ (Option R) := do
  if !F.valid next then return none
  if !(← P.erase k) then return none
  if !(← programPhrases P k (F.encode next) 0 (F.size / P.phrase)) then return none
  let s ← get
  let readback := F.decode fun i => (P.dev s).mem (P.base k + i)
  if F.valid readback && F.equal next readback then return some readback
  return none

namespace Port

variable (P : Port σ ε)

/-- The bytes of a copy. -/
def copies (mem : Nat → Byte) (k : Fin 2) (i : Nat) : Byte := mem (P.base k + i)

/-- The write of `next` to copy `k` has come as far as byte `p`. -/
structure Written (F : Format R) (k : Fin 2) (next : R) (m₀ : Nat → Byte) (p : Nat)
    (m : Nat → Byte) : Prop where
  outside : SameOutside (P.base k) P.sector m₀ m
  torn : F.Torn next p (P.copies m k)

/-- The write has not begun, or has come as far as some byte. -/
def Stage (F : Format R) (k : Fin 2) (next : R) (m₀ m : Nat → Byte) : Prop :=
  m = m₀ ∨ ∃ p, p ≤ F.size ∧ P.Written F k next m₀ p m

/-- One command of the write: the erase, or the program of the phrase at byte `p`, which gets as far
    as byte `q`. -/
inductive WriteStep (F : Format R) (k : Fin 2) (next : R) (m₀ : Nat → Byte) :
    Command → (Nat → Byte) → (Nat → Byte) → Prop where
  | erase (m' : Nat → Byte) (h : m' = m₀ ∨ P.Written F k next m₀ 0 m') :
    WriteStep F k next m₀ (.erase (P.base k) P.sector) m₀ m'
  | program (p q : Nat) (m m' : Nat → Byte) (hdvd : P.phrase ∣ p) (hp : p + P.phrase ≤ F.size)
    (hpq : p ≤ q) (hq : q ≤ p + P.phrase) (hm : P.Written F k next m₀ p m)
    (hm' : P.Written F k next m₀ q m') :
    WriteStep F k next m₀ (.program (P.base k + p) P.phrase fun i => F.encode next (p + i)) m m'

variable {P} {F : Format R} {k : Fin 2} {next : R} {m₀ m : Nat → Byte} {p : Nat}

theorem Written.erased (h : P.Written F k next m₀ p m) {n : Nat} (hn : p + n ≤ F.size) :
    Erased m (P.base k + p) n := by
  intro i hi
  have ht := h.torn (p + i) (by omega)
  rw [if_neg (by omega)] at ht
  rw [Nat.add_assoc]
  exact ht

/-- An erased phrase of the record counts as written. -/
theorem Written.skip (h : P.Written F k next m₀ p m) {n : Nat}
    (hb : ∀ i, i < n → F.encode next (p + i) = 0xFF) : P.Written F k next m₀ (p + n) m := by
  refine ⟨h.outside, fun i hi => ?_⟩
  rw [h.torn i hi]
  by_cases hp : i < p
  · rw [if_pos hp, if_pos (by omega)]
  · rw [if_neg hp]
    by_cases hn : i < p + n
    · rw [if_pos hn, ← hb (i - p) (by omega), Nat.add_sub_cancel' (by omega)]
    · rw [if_neg hn]

/-- The first `n` bytes of a phrase are programmed. -/
theorem Written.program (h : P.Written F k next m₀ p m) {size n : Nat}
    (hs : p + size ≤ F.size) (hsec : F.size ≤ P.sector) :
    P.Written F k next m₀ (p + min n size)
      ((Command.program (P.base k + p) size fun i => F.encode next (p + i)).effect n m) := by
  refine ⟨?_, fun i hi => ?_⟩
  · refine h.outside.trans ((sameOutside_effect _ n m).mono ?_ ?_)
    · exact Nat.le_add_right _ _
    · simp only [Command.address, Command.size]
      omega
  · have he := h.erased hs
    by_cases hin : p ≤ i ∧ i < p + min n size
    · have hi' : P.base k + i = P.base k + p + (i - p) := by omega
      simp only [copies]
      rw [hi', program_effect_erased he (by omega), if_pos (by omega)]
      congr 1
      omega
    · simp only [copies]
      rw [program_effect_rest (by omega)]
      have ht := h.torn i hi
      simp only [copies] at ht
      rw [ht]
      by_cases hp : i < p
      · rw [if_pos hp, if_pos (by omega)]
      · rw [if_neg hp, if_neg (by omega)]

theorem written_erase (hsec : F.size ≤ P.sector) :
    P.Written F k next m₀ 0 ((Command.erase (P.base k) P.sector).effect P.sector m₀) := by
  refine ⟨sameOutside_effect (.erase (P.base k) P.sector) _ _, fun i hi => ?_⟩
  rw [if_neg (Nat.not_lt_zero i)]
  exact erase_effect_erased i (by omega)

/-- Every command of a write stays inside the sector. -/
theorem WriteStep.range {c : Command} {m' : Nat → Byte} (hsec : F.size ≤ P.sector)
    (h : P.WriteStep F k next m₀ c m m') :
    P.base k ≤ c.address ∧ c.address + c.size ≤ P.base k + P.sector := by
  cases h with
  | erase => exact ⟨le_refl _, le_refl _⟩
  | program p q _ _ _ hp =>
    simp only [Command.address, Command.size]
    omega

end Port

open Port

variable {P : Port σ ε} {F : Format R} {k : Fin 2} {next : R} {m₀ : Nat → Byte} {s : σ}

/-- What the write leaves: its device evolved by write steps and at some stage. -/
structure WriteRun (P : Port σ ε) (F : Format R) (k : Fin 2) (next : R) (d d' : Device ε) :
    Prop where
  evolves : Evolves (P.WriteStep F k next d.mem) d d'
  stage : P.Stage F k next d.mem d'.mem

/-- The phrases from byte `offset` to the end of the record. -/
theorem wp_programPhrases (hlimit : F.size ≤ P.limit) {d : Device ε} {offset n : Nat}
    (hready : P.ready s) (hdvd : P.phrase ∣ offset)
    (hn : offset + P.phrase * n = F.size)
    (hev : Evolves (P.WriteStep F k next d.mem) d (P.dev s))
    (hw : P.Written F k next d.mem offset (P.dev s).mem) :
    wp (programPhrases P k (F.encode next) offset n)
      (fun ok s' => ∃ d', s' = P.setDev s d' ∧ WriteRun P F k next d d' ∧
        (ok = true → P.Written F k next d.mem F.size d'.mem) ∧
        (ok = false → ¬ (P.dev s).Faultless))
      (fun s' => WriteRun P F k next d (P.dev s') ∧ ¬ (P.dev s).Uncut) s := by
  induction n generalizing s offset with
  | zero =>
    have ho : offset = F.size := by simpa using hn
    refine (wp_pure true).2 ⟨P.dev s, (P.setDev_dev s).symm, ⟨hev, .inr ⟨_, le_of_eq ho, hw⟩⟩, ?_, ?_⟩
    · intro _
      exact ho ▸ hw
    · intro h
      cases h
  | succ n ih =>
    rw [Nat.mul_succ] at hn
    have hfit : offset + P.phrase ≤ F.size := by omega
    have hsec : F.size ≤ P.sector := le_trans hlimit P.limit_le
    have herased : Erased (P.dev s).mem (P.base k + offset) P.phrase := hw.erased hfit
    have hnext : P.phrase ∣ offset + P.phrase := Nat.dvd_add hdvd (dvd_refl _)
    -- one command of this phrase, of which `j` bytes are done
    have hstep : ∀ j, WriteRun P F k next d ((P.dev s).after
        (.program (P.base k + offset) P.phrase fun i => F.encode next (offset + i)) j) := by
      intro j
      have hw' := hw.program (n := j) hfit hsec
      refine ⟨hev.command _ j (.program offset _ _ _ hdvd hfit (Nat.le_add_right _ _) ?_ hw hw'),
        .inr ⟨_, ?_, hw'⟩⟩ <;> omega
    unfold programPhrases
    rw [wp_bind]
    refine P.wp_program hready hdvd (le_trans hfit hlimit) herased ?_ ?_ ?_ ?_
    · intro hblank
      rw [wp_ite, if_pos rfl]
      refine ih hready hnext (by omega) hev (hw.skip ?_)
      simpa [blank] using hblank
    · rw [wp_ite, if_pos rfl]
      have hw' := hw.program (n := P.phrase) hfit hsec
      rw [Nat.min_self] at hw'
      refine wp_mono (ih (P.ready_setDev _ _ hready) hnext (by omega) ?_ ?_) ?_ ?_
      · rw [P.dev_setDev]
        exact (hstep P.phrase).evolves
      · rw [P.dev_setDev]
        exact hw'
      · rintro ok s' ⟨d', rfl, hrun, htrue, hfalse⟩
        refine ⟨d', P.setDev_setDev _ _ _, hrun, htrue, fun h hf => hfalse h ?_⟩
        rw [P.dev_setDev]
        exact hf.after _ _
      · rintro s' ⟨hrun, hcut⟩
        rw [P.dev_setDev] at hcut
        exact ⟨hrun, fun hu => hcut (hu.after _ _)⟩
    · intro j s' hj hs'
      rw [hs']
      exact ⟨hstep j, fun hu => hu j hj⟩
    · intro j hj
      rw [wp_ite, if_neg Bool.false_ne_true]
      refine (wp_pure false).2 ⟨_, rfl, hstep j, ?_, fun _ hf => hf j hj⟩
      intro h
      cases h

/-- An invalid record is refused before the sector is erased. -/
theorem writeCopy_invalid {Q : Option R → σ → Prop} {C : σ → Prop} (hv : F.valid next = false)
    (h : Q none s) : wp (writeCopy F P k next) Q C s := by
  unfold writeCopy
  rw [wp_ite, if_pos (by simp [hv])]
  exact (wp_pure none).2 h

/-- A write that returns a record has stored it; one that is cut or fails has stopped at a stage,
    without faults it does not fail, and without cuts it is not cut. -/
theorem wp_writeCopy (hlimit : F.size ≤ P.limit) (hphrase : P.phrase ∣ F.size)
    (hready : P.ready s) (hv : F.valid next = true) :
    wp (writeCopy F P k next)
      (fun res s' => ∃ d', s' = P.setDev s d' ∧ WriteRun P F k next (P.dev s) d' ∧
        (∀ r, res = some r → r = next ∧ P.Written F k next (P.dev s).mem F.size d'.mem) ∧
        (res = none → ¬ (P.dev s).Faultless))
      (fun s' => WriteRun P F k next (P.dev s) (P.dev s') ∧ ¬ (P.dev s).Uncut) s := by
  have hsec : F.size ≤ P.sector := le_trans hlimit P.limit_le
  have hzero : P.Written F k next (P.dev s).mem 0
      ((Command.erase (P.base k) P.sector).effect P.sector (P.dev s).mem) := written_erase hsec
  -- an erase that does not complete has happened or not
  have hcut : ∀ n, WriteRun P F k next (P.dev s) ((P.dev s).after (.erase (P.base k) P.sector)
      ((Command.erase (P.base k) P.sector).cutSize n)) := by
    intro n
    by_cases hn : n = 0
    · rw [show (Command.erase (P.base k) P.sector).cutSize n = 0 by simp [Command.cutSize, hn]]
      have hsame := Command.effect_zero (.erase (P.base k) P.sector) (P.dev s).mem
      exact ⟨(Evolves.refl _).command _ 0 (.erase _ (.inl hsame)), .inl hsame⟩
    · rw [show (Command.erase (P.base k) P.sector).cutSize n = P.sector by
        simp [Command.cutSize, hn]]
      exact ⟨(Evolves.refl _).command _ _ (.erase _ (.inr hzero)), .inr ⟨0, Nat.zero_le _, hzero⟩⟩
  unfold writeCopy
  rw [wp_ite, if_neg (by simp [hv]), wp_bind]
  refine P.wp_erase hready ?_ ?_ ?_
  · rw [wp_ite, if_neg (by decide), wp_bind]
    have hdev : P.dev (P.setDev s ((P.dev s).after (.erase (P.base k) P.sector) P.sector)) =
        (P.dev s).after (.erase (P.base k) P.sector) P.sector := P.dev_setDev _ _
    have hsize : 0 + P.phrase * (F.size / P.phrase) = F.size := by
      rw [Nat.zero_add, Nat.mul_div_cancel' hphrase]
    refine wp_mono (wp_programPhrases hlimit (d := P.dev s) (P.ready_setDev _ _ hready)
      (dvd_zero _) hsize ?_ ?_) ?_ ?_
    · rw [hdev]
      exact (Evolves.refl _).command _ _ (.erase _ (.inr hzero))
    · rw [hdev]
      exact hzero
    · rintro ok s' ⟨d', rfl, hrun, htrue, hfalse⟩
      rw [P.setDev_setDev, wp_ite]
      cases ok with
      | false =>
        rw [if_pos (by decide)]
        refine (wp_pure none).2 ⟨d', rfl, hrun, ?_, ?_⟩
        · intro r h
          cases h
        · intro _ hf
          refine hfalse rfl ?_
          rw [hdev]
          exact hf.after _ _
      | true =>
        have hw := htrue rfl
        have hread : F.decode (fun i => (P.dev (P.setDev s d')).mem (P.base k + i)) = next := by
          rw [P.dev_setDev]
          exact (F.decode_congr hw.torn.complete).trans (F.decode_encode next)
        rw [if_neg (by decide), wp_bind, wp_get, hread, wp_ite,
          if_pos (by simp [hv, F.equal_iff.2 rfl])]
        refine (wp_pure (some next)).2 ⟨d', rfl, hrun, ?_, ?_⟩
        · intro r h
          cases h
          exact ⟨rfl, hw⟩
        · intro h
          cases h
    · rintro s' ⟨hrun, hc⟩
      rw [hdev] at hc
      exact ⟨hrun, fun hu => hc (hu.after _ _)⟩
  · intro n s' hn hs'
    rw [hs']
    exact ⟨hcut n, fun hu => hu n hn⟩
  · intro n hn
    rw [wp_ite, if_pos (by decide)]
    refine (wp_pure none).2 ⟨_, rfl, hcut n, ?_, fun _ hf => hf n hn⟩
    intro r h
    cases h

/-! ## The register during a write -/

namespace Register

def Unset (g : Register R) : Prop := g = .empty ∨ g = .spoiled

/-- What one command of a write of `next` can do to a store. -/
inductive Step (next : R) : Register R → Register R → Prop where
  | same (g : Register R) : Step next g g
  | forget (r : R) (o : Option R) : Step next (.valid r o) (.valid r none)
  | commit (r : R) : Step next (.valid r none) (.valid next (some r))
  | spoil (g g' : Register R) (h : g.Unset) (h' : g'.Unset) : Step next g g'
  | first (g : Register R) (h : g.Unset) : Step next g (.valid next none)

/-- The current record of a store, older copies aside. -/
inductive Current (R : Type) where
  | unset
  | ambiguous
  | record (r : R)

def current : Register R → Current R
  | empty => .unset
  | spoiled => .unset
  | ambiguous => .ambiguous
  | valid r _ => .record r

/-- A change that leaves the current record alone. -/
inductive Quiet : Register R → Register R → Prop where
  | same (g : Register R) : Quiet g g
  | forget (r : R) (o : Option R) : Quiet (.valid r o) (.valid r none)
  | spoil (g g' : Register R) (h : g.Unset) (h' : g'.Unset) : Quiet g g'

/-- The change that makes `next` the current record. -/
inductive Fresh (next : R) : Register R → Register R → Prop where
  | commit (r : R) : Fresh next (.valid r none) (.valid next (some r))
  | first (g : Register R) (h : g.Unset) : Fresh next g (.valid next none)

variable {g g' : Register R}

theorem Step.quiet_or_fresh (h : Step next g g') : Quiet g g' ∨ Fresh next g g' := by
  cases h with
  | same => exact .inl (.same _)
  | forget r o => exact .inl (.forget r o)
  | commit r => exact .inr (.commit r)
  | spoil _ _ h h' => exact .inl (.spoil _ _ h h')
  | first _ h => exact .inr (.first _ h)

theorem current_eq_unset : g.current = .unset ↔ g.Unset := by
  cases g <;> simp [current, Unset]

theorem current_eq_record {r : R} : g.current = .record r ↔ ∃ o, g = .valid r o := by
  cases g <;> simp [current]

theorem Quiet.current (h : Quiet g g') : g'.current = g.current := by
  cases h with
  | same => rfl
  | forget r o => rfl
  | spoil _ _ h h' => rw [current_eq_unset.2 h, current_eq_unset.2 h']

theorem Fresh.current (h : Fresh next g g') : g'.current = .record next := by
  cases h <;> rfl

end Register

namespace Port

/-- What the store holds in a memory. -/
def register (P : Port σ ε) (F : Format R) (mem : Nat → Byte) : Register R :=
  F.register (P.copies mem)

theorem Written.sameOther {p : Nat} {m : Nat → Byte} (hsec : F.size ≤ P.sector)
    (h : P.Written F k next m₀ p m) : F.SameOther k (P.copies m₀) (P.copies m) := by
  intro i hi
  refine h.outside _ ?_
  rcases P.apart k with ha | ha
  · right
    omega
  · left
    omega

/-- The register at the stages of a write after the current record `r`. -/
theorem Written.register {p : Nat} {m : Nat → Byte} {r : R} (hsec : F.size ≤ P.sector)
    (hl : F.load (P.copies m₀) = .valid k r) (hs : F.sequence next = F.sequence r + 1)
    (hv : F.valid next = true) (h : P.Written F (1 - k) next m₀ p m) (hp : p ≤ F.size) :
    (p < F.size → F.load (P.copies m) = .valid k r ∧ P.register F m = .valid r none) ∧
    (p = F.size →
      F.load (P.copies m) = .valid (1 - k) next ∧ P.register F m = .valid next (some r)) := by
  constructor
  · exact Format.load_torn hl (h.sameOther hsec) h.torn
  · rintro rfl
    exact Format.load_commit hl (h.sameOther hsec) h.torn hv hs

/-- The register at the stages of a first write. -/
theorem Written.register_unset {p : Nat} {m : Nat → Byte} (hsec : F.size ≤ P.sector)
    (hu : (P.register F m₀).Unset) (hv : F.valid next = true) (h : P.Written F 0 next m₀ p m)
    (hp : p ≤ F.size) :
    (p < F.size → (P.register F m).Unset) ∧ (p = F.size → P.register F m = .valid next none) := by
  constructor
  · exact Format.register_unset_torn hu (h.sameOther hsec) h.torn
  · rintro rfl
    exact (Format.register_first hu (h.sameOther hsec) h.torn hv).2

/-- Every command of a write steps the register and finds the current record in the other copy. -/
theorem WriteStep.register {c : Command} {m m' : Nat → Byte} {r : R} (hsec : F.size ≤ P.sector)
    (hl : F.load (P.copies m₀) = .valid k r) (hs : F.sequence next = F.sequence r + 1)
    (hv : F.valid next = true) (h : P.WriteStep F (1 - k) next m₀ c m m') :
    Register.Step next (P.register F m) (P.register F m') ∧
      F.load (P.copies m) = .valid k r := by
  cases h with
  | erase _ h =>
    rcases h with rfl | hw
    · exact ⟨.same _, hl⟩
    · have h0 := (hw.register hsec hl hs hv (Nat.zero_le _)).1 F.size_pos
      have hm : P.register F m₀ = .valid r _ := F.register_of_load hl
      rw [hm, h0.2]
      exact ⟨.forget _ _, hl⟩
  | program p q _ _ _ hp hpq hq hw hw' =>
    have hpos := P.phrase_pos
    have hq' : q ≤ F.size := by omega
    have hm := (hw.register hsec hl hs hv (by omega)).1 (by omega)
    have hm' := hw'.register hsec hl hs hv hq'
    rw [hm.2]
    refine ⟨?_, hm.1⟩
    rcases Nat.lt_or_eq_of_le hq' with hlt | heq
    · rw [(hm'.1 hlt).2]
      exact .same _
    · rw [(hm'.2 heq).2]
      exact .commit r

theorem WriteStep.register_unset {c : Command} {m m' : Nat → Byte} (hsec : F.size ≤ P.sector)
    (hu : (P.register F m₀).Unset) (hv : F.valid next = true)
    (h : P.WriteStep F 0 next m₀ c m m') :
    Register.Step next (P.register F m) (P.register F m') ∧ (P.register F m).Unset := by
  cases h with
  | erase _ h =>
    rcases h with rfl | hw
    · exact ⟨.same _, hu⟩
    · exact ⟨.spoil _ _ hu ((hw.register_unset hsec hu hv (Nat.zero_le _)).1 F.size_pos), hu⟩
  | program p q _ _ _ hp hpq hq hw hw' =>
    have hpos := P.phrase_pos
    have hq' : q ≤ F.size := by omega
    have hm := (hw.register_unset hsec hu hv (by omega)).1 (by omega)
    have hm' := hw'.register_unset hsec hu hv hq'
    refine ⟨?_, hm⟩
    rcases Nat.lt_or_eq_of_le hq' with hlt | heq
    · exact .spoil _ _ hm (hm'.1 hlt)
    · rw [hm'.2 heq]
      exact .first _ hm

end Port

end TwoCopy
