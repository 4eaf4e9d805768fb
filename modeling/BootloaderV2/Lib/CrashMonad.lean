import Mathlib.Tactic.Common

/-!
# Programs that a power cut can end

A program over a state `σ` either returns or is cut, and a cut leaves the state reached so far.
The weakest precondition carries a second postcondition for that case: `wp m Q C s` says that `m`
run from `s` returns a value and a state satisfying `Q`, or is cut in a state satisfying `C`.
-/

/-- How a run ends: with a value, or with a cut that leaves the state only. -/
inductive Outcome (σ α : Type) where
  | done (a : α) (s : σ)
  | cut (s : σ)

/-- The state a run ends in, whichever way it ends. -/
def Outcome.state {σ α : Type} : Outcome σ α → σ
  | .done _ s => s
  | .cut s => s

/-- A program over `σ` that may be cut. -/
def CrashM (σ α : Type) : Type := σ → Outcome σ α

namespace CrashM

variable {σ τ α β : Type}

instance : Monad (CrashM σ) where
  pure a := fun s => .done a s
  bind m f := fun s =>
    match m s with
    | .done a s' => f a s'
    | .cut s' => .cut s'

def get : CrashM σ σ := fun s => .done s s

def modify (f : σ → σ) : CrashM σ Unit := fun s => .done () (f s)

/-- Runs a program on one component of the state. -/
def zoom (get : σ → τ) (set : σ → τ → σ) (m : CrashM τ α) : CrashM σ α := fun s =>
  match m (get s) with
  | .done a t => .done a (set s t)
  | .cut t => .cut (set s t)

/-- `m` run from `s` returns in `Q` or is cut in `C`. -/
def wp (m : CrashM σ α) (Q : α → σ → Prop) (C : σ → Prop) (s : σ) : Prop :=
  match m s with
  | .done a s' => Q a s'
  | .cut s' => C s'

variable {m : CrashM σ α} {f : α → CrashM σ β} {Q Q' : α → σ → Prop} {C C' : σ → Prop} {s : σ}

@[simp] theorem wp_pure (a : α) : wp (pure a) Q C s ↔ Q a s := Iff.rfl

@[simp] theorem wp_bind {Q : β → σ → Prop} :
    wp (m >>= f) Q C s ↔ wp m (fun a s' => wp (f a) Q C s') C s := by
  simp only [wp, bind]
  cases m s <;> rfl

@[simp] theorem wp_map {g : α → β} {Q : β → σ → Prop} :
    wp (g <$> m) Q C s ↔ wp m (fun a s' => Q (g a) s') C s := by
  simp only [wp, Functor.map]
  cases m s <;> rfl

@[simp] theorem wp_get {Q : σ → σ → Prop} : wp get Q C s ↔ Q s s := Iff.rfl

@[simp] theorem wp_modify {g : σ → σ} {Q : Unit → σ → Prop} :
    wp (modify g) Q C s ↔ Q () (g s) := Iff.rfl

@[simp] theorem wp_zoom {get : σ → τ} {set : σ → τ → σ} {m : CrashM τ α} :
    wp (zoom get set m) Q C s ↔
      wp m (fun a t => Q a (set s t)) (fun t => C (set s t)) (get s) := by
  simp only [wp, zoom]
  cases m (get s) <;> rfl

@[simp] theorem wp_ite {c : Prop} [Decidable c] {m n : CrashM σ α} :
    wp (if c then m else n) Q C s ↔ if c then wp m Q C s else wp n Q C s := by
  split <;> rfl

/-- The rule of consequence. -/
theorem wp_mono (h : wp m Q C s) (hQ : ∀ a s', Q a s' → Q' a s') (hC : ∀ s', C s' → C' s') :
    wp m Q' C' s := by
  simp only [wp] at h ⊢
  cases hm : m s with
  | done a s' => rw [hm] at h; exact hQ a s' h
  | cut s' => rw [hm] at h; exact hC s' h

/-- Sequencing with the first program's specification given by a lemma. -/
theorem wp_seq {Q : β → σ → Prop} {P : α → σ → Prop} {D : σ → Prop} (h : wp m P D s)
    (hP : ∀ a s', P a s' → wp (f a) Q C s') (hD : ∀ s', D s' → C s') :
    wp (m >>= f) Q C s :=
  wp_bind.2 (wp_mono h hP hD)

theorem wp_and {P : α → σ → Prop} {D : σ → Prop} (h : wp m Q C s) (h' : wp m P D s) :
    wp m (fun a s' => Q a s' ∧ P a s') (fun s' => C s' ∧ D s') s := by
  simp only [wp] at h h' ⊢
  cases hm : m s with
  | done a s' => rw [hm] at h h'; exact ⟨h, h'⟩
  | cut s' => rw [hm] at h h'; exact ⟨h, h'⟩

/-- What holds however the run ends. -/
theorem wp_state {P : σ → Prop} (h : wp m (fun _ => P) P s) : P (m s).state := by
  simp only [wp] at h
  cases hm : m s with
  | done a s' => rw [hm] at h; exact h
  | cut s' => rw [hm] at h; exact h

/-- A run that cannot be cut returns. -/
theorem wp_done (h : wp m Q (fun _ => False) s) : ∃ a s', m s = .done a s' ∧ Q a s' := by
  simp only [wp] at h
  cases hm : m s with
  | done a s' => rw [hm] at h; exact ⟨a, s', rfl, h⟩
  | cut s' => rw [hm] at h; exact h.elim

theorem wp_of_eq_done {a : α} {s' : σ} (h : wp m Q C s) (hm : m s = .done a s') : Q a s' := by
  simpa only [wp, hm] using h

theorem wp_of_eq_cut {s' : σ} (h : wp m Q C s) (hm : m s = .cut s') : C s' := by
  simpa only [wp, hm] using h

/-! ## Runs that return -/

/-- What holds if `m` returns. -/
def Ensures (m : CrashM σ α) (Q : α → σ → Prop) (s : σ) : Prop := wp m Q (fun _ => True) s

namespace Ensures

variable {n : CrashM σ α} {P : β → σ → Prop}

theorem pure {a : α} (h : Q a s) : Ensures (Pure.pure a) Q s := h

theorem bind (h : Ensures m Q s) (hf : ∀ a s', Q a s' → Ensures (f a) P s') :
    Ensures (m >>= f) P s :=
  wp_seq h hf fun _ _ => trivial

theorem any : Ensures m (fun _ _ => True) s := by
  unfold Ensures wp
  cases m s <;> trivial

/-- The return itself. -/
theorem self : Ensures m (fun a s' => m s = .done a s') s := by
  unfold Ensures wp
  cases m s with
  | done a s' => rfl
  | cut s' => trivial

/-- Sequencing after a program of which nothing is known. -/
theorem skip (hf : ∀ a s', Ensures (f a) P s') : Ensures (m >>= f) P s :=
  any.bind fun a s' _ => hf a s'

theorem mono (h : Ensures m Q s) (hQ : ∀ a s', Q a s' → Q' a s') : Ensures m Q' s :=
  wp_mono h hQ fun _ h => h

theorem and (h : Ensures m Q s) (h' : Ensures m Q' s) :
    Ensures m (fun a s' => Q a s' ∧ Q' a s') s :=
  wp_mono (wp_and h h') (fun _ _ h => h) fun _ _ => trivial

theorem of_wp (h : wp m Q C s) : Ensures m Q s := wp_mono h (fun _ _ h => h) fun _ _ => trivial

theorem ite {c : Prop} [Decidable c] (ht : c → Ensures m Q s) (hf : ¬ c → Ensures n Q s) :
    Ensures (if c then m else n) Q s := by
  split
  · exact ht ‹_›
  · exact hf ‹_›

theorem of_done {a : α} {s' : σ} (h : Ensures m Q s) (hm : m s = .done a s') : Q a s' :=
  wp_of_eq_done h hm

end Ensures

/-! ## Runs that must return -/

/-- `m` returns, in `Q`. -/
def Completes (m : CrashM σ α) (Q : α → σ → Prop) (s : σ) : Prop := wp m Q (fun _ => False) s

namespace Completes

variable {n : CrashM σ α} {P : β → σ → Prop}

theorem pure {a : α} (h : Q a s) : Completes (Pure.pure a) Q s := h

theorem bind (h : Completes m Q s) (hf : ∀ a s', Q a s' → Completes (f a) P s') :
    Completes (m >>= f) P s :=
  wp_seq h hf fun _ h => h

theorem mono (h : Completes m Q s) (hQ : ∀ a s', Q a s' → Q' a s') : Completes m Q' s :=
  wp_mono h hQ fun _ h => h

/-- What is known of any return holds of this one. -/
theorem and_ensures (h : Completes m Q s) (h' : Ensures m Q' s) :
    Completes m (fun a s' => Q a s' ∧ Q' a s') s :=
  wp_mono (wp_and h h') (fun _ _ h => h) fun _ h => h.1

theorem ite {c : Prop} [Decidable c] (ht : c → Completes m Q s) (hf : ¬ c → Completes n Q s) :
    Completes (if c then m else n) Q s := by
  split
  · exact ht ‹_›
  · exact hf ‹_›

/-- Gives a large state a name. -/
theorem named (h : ∀ s', s' = s → Completes m Q s') : Completes m Q s := h s rfl

theorem exists_done (h : Completes m Q s) : ∃ a s', m s = .done a s' ∧ Q a s' := wp_done h

end Completes

end CrashM
