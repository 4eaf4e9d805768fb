import BootloaderV2.Lib.CrashMonad
import BootloaderV2.Lib.Words

/-!
# NOR flash with torn commands

A command erases a range to `0xFF` or programs a range, which can only clear bits.  What becomes of
the coming commands is decided from outside, by a list of fates: a command may complete, the power
may be cut while it runs, or it may report a failure.  A cut erase has happened or not; a cut or
failed program leaves the first `n` bytes of its range programmed.  Every command issued is logged
with the memory it left, together with notes of the program's own.
-/

namespace NorFlash

/-- What becomes of one command. -/
inductive Fate where
  | ok
  | cut (n : Nat)
  | fail (n : Nat)
  deriving DecidableEq, Repr

inductive Command where
  | erase (address size : Nat)
  | program (address size : Nat) (data : Nat → Byte)

inductive Event (ε : Type) where
  | command (c : Command) (mem : Nat → Byte)
  | note (e : ε)

structure Device (ε : Type) where
  mem : Nat → Byte
  fates : List Fate
  log : List (Event ε)

namespace Command

def address : Command → Nat
  | .erase a _ => a
  | .program a _ _ => a

def size : Command → Nat
  | .erase _ n => n
  | .program _ n _ => n

/-- The memory once the first `n` bytes of the range are done. -/
def effect (c : Command) (n : Nat) (mem : Nat → Byte) : Nat → Byte :=
  match c with
  | .erase base size => fun a => if base ≤ a ∧ a < base + min n size then 0xFF else mem a
  | .program base size data => fun a =>
      if base ≤ a ∧ a < base + min n size then mem a &&& data (a - base) else mem a

/-- The bytes done when the command does not complete: an erase is atomic. -/
def cutSize : Command → Nat → Nat
  | .erase _ size, n => if n = 0 then 0 else size
  | .program _ _ _, n => n

theorem effect_outside (c : Command) (n : Nat) (mem : Nat → Byte) {a : Nat}
    (h : a < c.address ∨ c.address + c.size ≤ a) : c.effect n mem a = mem a := by
  cases c <;> simp only [effect, address, size] at h ⊢ <;> rw [if_neg (by omega)]

theorem effect_zero (c : Command) (mem : Nat → Byte) : c.effect 0 mem = mem := by
  funext a
  cases c <;> simp only [effect] <;> rw [if_neg (by omega)]

theorem erase_effect (base size : Nat) (mem : Nat → Byte) :
    (erase base size).effect size mem =
      fun a => if base ≤ a ∧ a < base + size then 0xFF else mem a := by
  simp only [effect, Nat.min_self]

end Command

namespace Device

variable {ε : Type}

/-- No coming command reports a failure; the power may still be cut. -/
def Faultless (d : Device ε) : Prop := ∀ n, Fate.fail n ∉ d.fates

/-- The power is not cut during any coming command. -/
def Uncut (d : Device ε) : Prop := ∀ n, Fate.cut n ∉ d.fates

/-- The device after `c`, of which the first `n` bytes are done. -/
def after (d : Device ε) (c : Command) (n : Nat) : Device ε :=
  ⟨c.effect n d.mem, d.fates.tail, .command c (c.effect n d.mem) :: d.log⟩

@[simp] theorem after_mem (d : Device ε) (c : Command) (n : Nat) :
    (d.after c n).mem = c.effect n d.mem := rfl

@[simp] theorem after_fates (d : Device ε) (c : Command) (n : Nat) :
    (d.after c n).fates = d.fates.tail := rfl

@[simp] theorem after_log (d : Device ε) (c : Command) (n : Nat) :
    (d.after c n).log = .command c (c.effect n d.mem) :: d.log := rfl

theorem Faultless.after {d : Device ε} (h : d.Faultless) (c : Command) (n : Nat) :
    (d.after c n).Faultless :=
  fun k hk => h k (List.mem_of_mem_tail hk)

theorem Uncut.after {d : Device ε} (h : d.Uncut) (c : Command) (n : Nat) : (d.after c n).Uncut :=
  fun k hk => h k (List.mem_of_mem_tail hk)

end Device

variable {ε : Type}

/-- Issues one command. -/
def issue (c : Command) : CrashM (Device ε) Bool := fun d =>
  match d.fates.head? with
  | none => .done true (d.after c c.size)
  | some .ok => .done true (d.after c c.size)
  | some (.cut n) => .cut (d.after c (c.cutSize n))
  | some (.fail n) => .done false (d.after c (c.cutSize n))

/-- A command completes, is cut or fails. -/
theorem wp_issue {c : Command} {d : Device ε} {Q : Bool → Device ε → Prop} {C : Device ε → Prop}
    (hdone : Q true (d.after c c.size))
    (hcut : ∀ n, Fate.cut n ∈ d.fates → C (d.after c (c.cutSize n)))
    (hfail : ∀ n, Fate.fail n ∈ d.fates → Q false (d.after c (c.cutSize n))) :
    CrashM.wp (issue c) Q C d := by
  unfold CrashM.wp issue
  cases hf : d.fates.head? with
  | none => exact hdone
  | some fate =>
    cases fate with
    | ok => exact hdone
    | cut n => exact hcut n (List.mem_of_mem_head? hf)
    | fail n => exact hfail n (List.mem_of_mem_head? hf)

/-- A command that nothing disturbs. -/
theorem wp_issue_ok {c : Command} {d : Device ε} {Q : Bool → Device ε → Prop}
    {C : Device ε → Prop} (hf : d.fates.head? = some .ok) (h : Q true (d.after c c.size)) :
    CrashM.wp (issue c) Q C d := by
  unfold CrashM.wp issue
  rw [hf]
  exact h

/-- A command during which the power is cut. -/
theorem wp_issue_cut {c : Command} {d : Device ε} {Q : Bool → Device ε → Prop}
    {C : Device ε → Prop} {n : Nat} (hf : d.fates.head? = some (.cut n))
    (h : C (d.after c (c.cutSize n))) : CrashM.wp (issue c) Q C d := by
  unfold CrashM.wp issue
  rw [hf]
  exact h

/-! ## Runs of commands -/

/-- The second device is the first after some commands, each of which satisfies `R` with the memory
    before and after it. -/
inductive Evolves (R : Command → (Nat → Byte) → (Nat → Byte) → Prop) :
    Device ε → Device ε → Prop where
  | refl (d : Device ε) : Evolves R d d
  | command {d d' : Device ε} (c : Command) (n : Nat) (h : Evolves R d d')
      (hR : R c d'.mem (c.effect n d'.mem)) : Evolves R d (d'.after c n)

namespace Evolves

variable {R R' : Command → (Nat → Byte) → (Nat → Byte) → Prop} {d d' d'' : Device ε}

theorem trans (h : Evolves R d d') (h' : Evolves R d' d'') : Evolves R d d'' := by
  induction h' with
  | refl => exact h
  | command c n _ hR ih => exact ih.command c n hR

theorem mono (hmono : ∀ c m m', R c m m' → R' c m m') (h : Evolves R d d') : Evolves R' d d' := by
  induction h with
  | refl => exact .refl _
  | command c n _ hR ih => exact ih.command c n (hmono _ _ _ hR)

/-- Either nothing was issued, or there is a last command. -/
theorem last (h : Evolves R d d') :
    d' = d ∨ ∃ c n e, Evolves R d e ∧ R c e.mem (c.effect n e.mem) ∧ d' = e.after c n := by
  cases h with
  | refl => exact .inl rfl
  | command c n h hR => exact .inr ⟨c, n, _, h, hR, rfl⟩

theorem faultless (h : Evolves R d d') (hd : d.Faultless) : d'.Faultless := by
  induction h with
  | refl => exact hd
  | command c n _ _ ih => exact ih.after c n

theorem uncut (h : Evolves R d d') (hd : d.Uncut) : d'.Uncut := by
  induction h with
  | refl => exact hd
  | command c n _ _ ih => exact ih.after c n

/-- What every command preserves holds at the end. -/
theorem invariant {P : (Nat → Byte) → Prop} (h : Evolves R d d')
    (hstep : ∀ c m m', R c m m' → P m → P m') (hd : P d.mem) : P d'.mem := by
  induction h with
  | refl => exact hd
  | command c n _ hR ih => exact hstep _ _ _ hR ih

end Evolves

/-! ## Ranges -/

/-- The memory with the first `size` bytes of `data` at `base`. -/
def place (base size : Nat) (data mem : Nat → Byte) : Nat → Byte :=
  fun a => if base ≤ a ∧ a < base + size then data (a - base) else mem a

theorem place_inside {base size : Nat} {data mem : Nat → Byte} {i : Nat} (hi : i < size) :
    place base size data mem (base + i) = data i := by
  rw [place, if_pos (by omega), Nat.add_sub_cancel_left]

theorem place_outside {base size : Nat} {data mem : Nat → Byte} {a : Nat}
    (h : a < base ∨ base + size ≤ a) : place base size data mem a = mem a := by
  rw [place, if_neg (by omega)]

/-- Every byte of the range is erased. -/
def Erased (mem : Nat → Byte) (base size : Nat) : Prop :=
  ∀ i, i < size → mem (base + i) = 0xFF

/-- The two memories agree outside the range. -/
def SameOutside (base size : Nat) (mem mem' : Nat → Byte) : Prop :=
  ∀ a, a < base ∨ base + size ≤ a → mem' a = mem a

theorem SameOutside.refl (base size : Nat) (mem : Nat → Byte) : SameOutside base size mem mem :=
  fun _ _ => rfl

theorem SameOutside.trans {base size : Nat} {m₁ m₂ m₃ : Nat → Byte}
    (h : SameOutside base size m₁ m₂) (h' : SameOutside base size m₂ m₃) :
    SameOutside base size m₁ m₃ :=
  fun a ha => (h' a ha).trans (h a ha)

theorem SameOutside.mono {base size a n : Nat} {m₁ m₂ : Nat → Byte}
    (h : SameOutside base size m₁ m₂) (hlo : a ≤ base) (hhi : base + size ≤ a + n) :
    SameOutside a n m₁ m₂ :=
  fun x hx => h x (by omega)

theorem sameOutside_effect (c : Command) (n : Nat) (mem : Nat → Byte) :
    SameOutside c.address c.size mem (c.effect n mem) :=
  fun _ ha => c.effect_outside n mem ha

theorem erase_effect_erased {base size : Nat} {mem : Nat → Byte} :
    Erased ((Command.erase base size).effect size mem) base size := by
  intro i hi
  rw [Command.erase_effect]
  exact if_pos ⟨by omega, by omega⟩

/-- Programming erased bytes stores the data. -/
theorem program_effect_erased {base size n : Nat} {data mem : Nat → Byte}
    (h : Erased mem base size) {i : Nat} (hi : i < min n size) :
    (Command.program base size data).effect n mem (base + i) = data i := by
  simp only [Command.effect]
  rw [if_pos (by omega), h i (by omega), Nat.add_sub_cancel_left]
  exact BitVec.allOnes_and

theorem program_effect_rest {base size n : Nat} {data mem : Nat → Byte} {a : Nat}
    (h : a < base ∨ base + min n size ≤ a) :
    (Command.program base size data).effect n mem a = mem a := by
  simp only [Command.effect]
  rw [if_neg (by omega)]

end NorFlash
