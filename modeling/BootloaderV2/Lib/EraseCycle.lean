import BootloaderV2.Lib.NorFlash

/-!
# One program command for each erase

Flash with error correction takes one program command for a phrase between two erases of its sector,
even when the command fails.  `Cycled` says this of a log, newest event first: a byte is programmed
only when its sector has been erased and it has not been programmed since.
-/

namespace NorFlash

variable {ε : Type} {sector a : Nat} {e : Event ε} {log log' : List (Event ε)}

namespace Event

/-- The event is a program command for the byte at `a`. -/
def Programs (a : Nat) : Event ε → Prop
  | .command (.program base size _) _ => base ≤ a ∧ a < base + size
  | _ => False

/-- The event is a command that left the sector of `a` erased. -/
def Renews (sector a : Nat) : Event ε → Prop
  | .command (.erase base size) mem =>
    size = sector ∧ sector ∣ base ∧ base ≤ a ∧ a < base + size ∧ Erased mem base size
  | _ => False

end Event

/-- The byte at `a` has not been programmed since its sector was erased. -/
def Renewed (sector a : Nat) : List (Event ε) → Prop
  | [] => False
  | e :: log => e.Renews sector a ∨ (¬ e.Programs a ∧ Renewed sector a log)

/-- Every byte was programmed at most once after each erase, and never before one. -/
def Cycled (sector : Nat) : List (Event ε) → Prop
  | [] => True
  | e :: log => (∀ a, e.Programs a → Renewed sector a log) ∧ Cycled sector log

theorem Event.Renews.not_programs (h : e.Renews sector a) : ¬ e.Programs a := by
  cases e with
  | note _ => exact h.elim
  | command c mem =>
    cases c with
    | erase base size => exact fun hp => hp
    | program base size data => exact h.elim

/-- Since the last program command for a byte that has been renewed, there was an erase. -/
theorem Renewed.between {mid older : List (Event ε)} (h : Renewed sector a (mid ++ e :: older))
    (he : e.Programs a) : ∃ r ∈ mid, r.Renews sector a := by
  induction mid with
  | nil =>
    rcases h with h | ⟨hn, -⟩
    · exact absurd he h.not_programs
    · exact absurd he hn
  | cons r mid ih =>
    rcases h with h | ⟨-, h⟩
    · exact ⟨r, List.mem_cons_self, h⟩
    · obtain ⟨r', hmem, hr'⟩ := ih h
      exact ⟨r', List.mem_cons_of_mem r hmem, hr'⟩

theorem Cycled.of_append {newer : List (Event ε)} (h : Cycled sector (newer ++ log)) :
    Cycled sector log := by
  induction newer with
  | nil => exact h
  | cons e newer ih => exact ih h.2

/-- Between two program commands for a byte its sector was erased. -/
theorem Cycled.between {newer mid older : List (Event ε)} {e₁ e₂ : Event ε}
    (h : Cycled sector (newer ++ e₂ :: (mid ++ e₁ :: older))) (h₁ : e₁.Programs a)
    (h₂ : e₂.Programs a) : ∃ r ∈ mid, r.Renews sector a :=
  (h.of_append.1 a h₂).between h₁

/-! ## What one more event does -/

theorem Renewed.cons (h : Renewed sector a log) (he : ¬ e.Programs a) : Renewed sector a (e :: log) :=
  .inr ⟨he, h⟩

theorem Cycled.cons (h : Cycled sector log) (he : ∀ a, e.Programs a → Renewed sector a log) :
    Cycled sector (e :: log) :=
  ⟨he, h⟩

/-- An erase programs nothing. -/
theorem Cycled.erase {base size : Nat} {mem : Nat → Byte} (h : Cycled sector log) :
    Cycled sector (.command (.erase base size) mem :: log) :=
  h.cons fun _ hp => hp.elim

theorem Renewed.erase {base size : Nat} {mem : Nat → Byte} (h : Renewed sector a log) :
    Renewed sector a (.command (.erase base size) mem :: log) :=
  h.cons fun hp => hp

theorem renewed_of_erase {base : Nat} {mem : Nat → Byte} (hdvd : sector ∣ base)
    (hmem : Erased mem base sector) (hlo : base ≤ a) (hhi : a < base + sector) :
    Renewed sector a (.command (.erase base sector) mem :: log) :=
  .inl ⟨rfl, hdvd, hlo, hhi, hmem⟩

end NorFlash
