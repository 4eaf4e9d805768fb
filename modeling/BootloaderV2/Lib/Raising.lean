import Mathlib.Tactic.Common

/-!
# Programs that raise

A program over a state returns a value, raises an error, or runs out of the fuel it was given.
`Ensures m Q E s` says what holds if `m` returns and if it raises; `Settles m s r` that the programs
`m n` end in `r` for all fuel `n` from some point on.
-/

/-- A program over `σ` that may raise; `none` is the end of the fuel. -/
def RaiseM (σ ε α : Type) : Type := σ → Option (Except ε α × σ)

namespace RaiseM

variable {σ ε α β : Type}

instance : Monad (RaiseM σ ε) where
  pure a := fun s => some (.ok a, s)
  bind m f := fun s =>
    match m s with
    | none => none
    | some (.ok a, s') => f a s'
    | some (.error e, s') => some (.error e, s')

def raise (e : ε) : RaiseM σ ε α := fun s => some (.error e, s)

/-- The fuel is used up. -/
def exhausted : RaiseM σ ε α := fun _ => none

def get : RaiseM σ ε σ := fun s => some (.ok s, s)

def modify (g : σ → σ) : RaiseM σ ε Unit := fun s => some (.ok (), g s)

/-- A computation that does not look at the state. -/
def lift (x : Except ε α) : RaiseM σ ε α := fun s => some (x, s)

/-- What follows an error, from the state that it was raised in. -/
def tryCatch (m : RaiseM σ ε α) (handle : ε → RaiseM σ ε α) : RaiseM σ ε α := fun s =>
  match m s with
  | some (.error e, s') => handle e s'
  | r => r

/-- The same program with other errors. -/
def mapError {ε' : Type} (g : ε → ε') (m : RaiseM σ ε α) : RaiseM σ ε' α := fun s =>
  (m s).map fun r => (r.1.mapError g, r.2)

variable {m : RaiseM σ ε α} {f : α → RaiseM σ ε β} {s s' : σ}

theorem bind_ok {a : α} (h : m s = some (.ok a, s')) : (m >>= f) s = f a s' := by
  simp only [Bind.bind, h]

theorem bind_error {e : ε} (h : m s = some (.error e, s')) :
    (m >>= f) s = some (.error e, s') := by
  simp only [Bind.bind, h]

/-! ## What holds at the end -/

/-- `m` returns in `Q` or raises in `E`, if the fuel lasts. -/
def Ensures (m : RaiseM σ ε α) (Q : α → σ → Prop) (E : ε → σ → Prop) (s : σ) : Prop :=
  match m s with
  | none => True
  | some (.ok a, s') => Q a s'
  | some (.error e, s') => E e s'

namespace Ensures

variable {n : RaiseM σ ε α} {Q Q' : α → σ → Prop} {E E' : ε → σ → Prop} {R : β → σ → Prop}

theorem pure {a : α} (h : Q a s) : Ensures (Pure.pure a) Q E s := h

theorem raise {e : ε} (h : E e s) : Ensures (RaiseM.raise e) Q E s := h

theorem exhausted : Ensures RaiseM.exhausted Q E s := trivial

theorem bind (h : Ensures m Q E s) (hf : ∀ a s', Q a s' → Ensures (f a) R E s') :
    Ensures (m >>= f) R E s := by
  unfold Ensures at h ⊢
  cases hm : m s with
  | none =>
    have hnone : (m >>= f) s = none := by simp only [Bind.bind, hm]
    rw [hnone]
    trivial
  | some r =>
    obtain ⟨res, s'⟩ := r
    rw [hm] at h
    cases res with
    | ok a =>
      rw [bind_ok hm]
      exact hf a s' h
    | error e =>
      rw [bind_error hm]
      exact h

/-- The rule of consequence. -/
theorem mono (h : Ensures m Q E s) (hQ : ∀ a s', Q a s' → Q' a s') (hE : ∀ e s', E e s' → E' e s') :
    Ensures m Q' E' s := by
  unfold Ensures at h ⊢
  cases hm : m s with
  | none => trivial
  | some r =>
    obtain ⟨res, s'⟩ := r
    rw [hm] at h
    cases res with
    | ok a => exact hQ a s' h
    | error e => exact hE e s' h

theorem ite {c : Prop} [Decidable c] (ht : c → Ensures m Q E s) (hf : ¬ c → Ensures n Q E s) :
    Ensures (if c then m else n) Q E s := by
  split
  · exact ht ‹_›
  · exact hf ‹_›

theorem lift {x : Except ε α} (hok : ∀ a, x = .ok a → Q a s) (herror : ∀ e, x = .error e → E e s) :
    Ensures (RaiseM.lift x) Q E s := by
  cases x with
  | ok a => exact hok a rfl
  | error e => exact herror e rfl

theorem bind_get {g : σ → RaiseM σ ε β} (h : Ensures (g s) R E s) :
    Ensures (RaiseM.get >>= g) R E s := h

theorem bind_modify {g : σ → σ} {k : RaiseM σ ε β} (h : Ensures k R E (g s)) :
    Ensures (RaiseM.modify g >>= fun _ => k) R E s := h

theorem of_ok {a : α} (h : Ensures m Q E s) (hm : m s = some (.ok a, s')) : Q a s' := by
  unfold Ensures at h
  rw [hm] at h
  exact h

theorem of_error {e : ε} (h : Ensures m Q E s) (hm : m s = some (.error e, s')) : E e s' := by
  unfold Ensures at h
  rw [hm] at h
  exact h

end Ensures

/-! ## Programs that return -/

/-- `m` returns, and in `Q`. -/
def Returns (m : RaiseM σ ε α) (Q : α → σ → Prop) (s : σ) : Prop :=
  ∃ a s', m s = some (.ok a, s') ∧ Q a s'

namespace Returns

variable {n : RaiseM σ ε α} {Q : α → σ → Prop} {R : β → σ → Prop}

theorem pure {a : α} (h : Q a s) : Returns (Pure.pure a : RaiseM σ ε α) Q s := ⟨a, s, rfl, h⟩

theorem bind (h : Returns m Q s) (hf : ∀ a s', Q a s' → Returns (f a) R s') :
    Returns (m >>= f) R s := by
  obtain ⟨a, s', hm, hq⟩ := h
  obtain ⟨c, s'', hrun, hr⟩ := hf a s' hq
  exact ⟨c, s'', (bind_ok hm).trans hrun, hr⟩

theorem ite_pos {c : Prop} [Decidable c] (hc : c) (h : Returns m Q s) :
    Returns (if c then m else n) Q s := by
  rwa [if_pos hc]

theorem ite_neg {c : Prop} [Decidable c] (hc : ¬ c) (h : Returns n Q s) :
    Returns (if c then m else n) Q s := by
  rwa [if_neg hc]

theorem lift {x : Except ε α} {a : α} (hx : x = .ok a) (h : Q a s) :
    Returns (RaiseM.lift x) Q s := ⟨a, s, congrArg (fun y => some (y, s)) hx, h⟩

theorem tryCatch {handle : ε → RaiseM σ ε α} (h : Returns m Q s) :
    Returns (m.tryCatch handle) Q s := by
  obtain ⟨a, s', hm, hq⟩ := h
  refine ⟨a, s', ?_, hq⟩
  unfold RaiseM.tryCatch
  rw [hm]

theorem bind_get {g : σ → RaiseM σ ε β} (h : Returns (g s) R s) : Returns (RaiseM.get >>= g) R s := h

theorem bind_modify {g : σ → σ} {k : RaiseM σ ε β} (h : Returns k R (g s)) :
    Returns (RaiseM.modify g >>= fun _ => k) R s := h

end Returns

/-! ## Invariants -/

/-- Whatever holds of the state in `P` holds where `m` returns or raises. -/
def Keeps (P : σ → Prop) (m : RaiseM σ ε α) : Prop :=
  ∀ s, P s → Ensures m (fun _ s' => P s') (fun _ s' => P s') s

namespace Keeps

variable {P : σ → Prop} {n : RaiseM σ ε α}

theorem pure {a : α} : Keeps P (Pure.pure a : RaiseM σ ε α) := fun _ hs => hs

theorem raise {e : ε} : Keeps P (RaiseM.raise e : RaiseM σ ε α) := fun _ hs => hs

theorem exhausted : Keeps P (RaiseM.exhausted : RaiseM σ ε α) := fun _ _ => trivial

theorem lift {x : Except ε α} : Keeps P (RaiseM.lift x) := fun _ hs =>
  .lift (fun _ _ => hs) fun _ _ => hs

theorem modify {g : σ → σ} (h : ∀ s, P s → P (g s)) : Keeps P (RaiseM.modify g : RaiseM σ ε Unit) :=
  h

theorem bind (h : Keeps P m) (hf : ∀ a, Keeps P (f a)) : Keeps P (m >>= f) :=
  fun s hs => (h s hs).bind fun a s' hs' => hf a s' hs'

theorem ite {c : Prop} [Decidable c] (ht : c → Keeps P m) (hf : ¬ c → Keeps P n) :
    Keeps P (if c then m else n) := by
  split
  · exact ht ‹_›
  · exact hf ‹_›

end Keeps

/-! ## Programs that end -/

/-- From a state in `P` the program comes to its end, in `P` again. -/
def Total (P : σ → Prop) (m : RaiseM σ ε α) : Prop := ∀ s, P s → ∃ r, m s = some r ∧ P r.2

namespace Total

variable {P : σ → Prop} {n : RaiseM σ ε α}

theorem pure {a : α} : Total P (Pure.pure a : RaiseM σ ε α) := fun _ hs => ⟨_, rfl, hs⟩

theorem raise {e : ε} : Total P (RaiseM.raise e : RaiseM σ ε α) := fun _ hs => ⟨_, rfl, hs⟩

theorem lift {x : Except ε α} : Total P (RaiseM.lift x) := fun _ hs => ⟨_, rfl, hs⟩

theorem modify {g : σ → σ} (h : ∀ s, P s → P (g s)) : Total P (RaiseM.modify g : RaiseM σ ε Unit) :=
  fun s hs => ⟨_, rfl, h s hs⟩

theorem bind (h : Total P m) (hf : ∀ a, Total P (f a)) : Total P (m >>= f) := by
  intro s hs
  obtain ⟨⟨res, s'⟩, hm, hs'⟩ := h s hs
  cases res with
  | ok a =>
    rw [bind_ok hm]
    exact hf a s' hs'
  | error e => exact ⟨_, bind_error hm, hs'⟩

theorem bind_get {g : σ → RaiseM σ ε β} (h : ∀ s, Total P (g s)) : Total P (RaiseM.get >>= g) :=
  fun s hs => h s s hs

theorem ite {c : Prop} [Decidable c] (ht : c → Total P m) (hf : ¬ c → Total P n) :
    Total P (if c then m else n) := by
  split
  · exact ht ‹_›
  · exact hf ‹_›

theorem tryCatch {handle : ε → RaiseM σ ε α} (h : Total P m) (hh : ∀ e, Total P (handle e)) :
    Total P (m.tryCatch handle) := by
  intro s hs
  obtain ⟨⟨res, s'⟩, hm, hs'⟩ := h s hs
  unfold RaiseM.tryCatch
  rw [hm]
  cases res with
  | ok a => exact ⟨_, rfl, hs'⟩
  | error e => exact hh e s' hs'

end Total

/-! ## Enough fuel -/

/-- From some fuel on the programs end in `r`. -/
def Settles (m : Nat → RaiseM σ ε α) (s : σ) (r : Except ε α × σ) : Prop :=
  ∃ k, ∀ n, k ≤ n → m n s = some r

/-- From some fuel on the programs end. -/
def Ends (m : Nat → RaiseM σ ε α) (s : σ) : Prop := ∃ r, Settles m s r

namespace Settles

variable {m : Nat → RaiseM σ ε α} {f : Nat → α → RaiseM σ ε β} {r : Except ε α × σ}
  {r' : Except ε β × σ}

theorem const {m : RaiseM σ ε α} (h : m s = some r) : Settles (fun _ => m) s r := ⟨0, fun _ _ => h⟩

theorem bind {a : α} (h : Settles m s (.ok a, s')) (hf : Settles (fun n => f n a) s' r') :
    Settles (fun n => m n >>= f n) s r' := by
  obtain ⟨k, hk⟩ := h
  obtain ⟨l, hl⟩ := hf
  refine ⟨max k l, fun n hn => ?_⟩
  exact (bind_ok (hk n (by omega))).trans (hl n (by omega))

theorem bind_error {e : ε} (h : Settles m s (.error e, s')) :
    Settles (fun n => m n >>= f n) s (.error e, s') := by
  obtain ⟨k, hk⟩ := h
  exact ⟨k, fun n hn => RaiseM.bind_error (hk n hn)⟩

/-- A step that uses one unit of fuel. -/
theorem succ {m' : Nat → RaiseM σ ε α} (hm : ∀ n, m' (n + 1) s = m n s') (h : Settles m s' r) :
    Settles m' s r := by
  obtain ⟨k, hk⟩ := h
  refine ⟨k + 1, fun n hn => ?_⟩
  obtain ⟨n, rfl⟩ : ∃ i, n = i + 1 := ⟨n - 1, by omega⟩
  rw [hm]
  exact hk n (by omega)

/-- And then is the last one. -/
theorem last (hm : ∀ n, m (n + 1) s = some r) : Settles m s r := by
  refine ⟨1, fun n hn => ?_⟩
  obtain ⟨n, rfl⟩ : ∃ i, n = i + 1 := ⟨n - 1, by omega⟩
  exact hm n

/-- The same programs, and maybe from another state. -/
theorem congr {m' : Nat → RaiseM σ ε α} (hm : ∀ n, m' n s = m n s') (h : Settles m s' r) :
    Settles m' s r := by
  obtain ⟨k, hk⟩ := h
  exact ⟨k, fun n hn => (hm n).trans (hk n hn)⟩

/-- A result that is settled is one for some fuel. -/
theorem exists_eq (h : Settles m s r) : ∃ n, m n s = some r := by
  obtain ⟨k, hk⟩ := h
  exact ⟨k, hk k (Nat.le_refl k)⟩

end Settles

namespace Ends

variable {m n : Nat → RaiseM σ ε α} {f : Nat → α → RaiseM σ ε β}

theorem const {m : RaiseM σ ε α} {r : Except ε α × σ} (h : m s = some r) : Ends (fun _ => m) s :=
  ⟨r, .const h⟩

theorem bind (h : Ends m s) (hf : ∀ a s', Settles m s (.ok a, s') → Ends (fun n => f n a) s') :
    Ends (fun n => m n >>= f n) s := by
  obtain ⟨⟨res, s'⟩, hr⟩ := h
  cases res with
  | ok a =>
    obtain ⟨r, hf⟩ := hf a s' hr
    exact ⟨r, hr.bind hf⟩
  | error e => exact ⟨_, hr.bind_error⟩

theorem succ {m' : Nat → RaiseM σ ε α} (hm : ∀ n, m' (n + 1) s = m n s') (h : Ends m s') :
    Ends m' s := by
  obtain ⟨r, hr⟩ := h
  exact ⟨r, hr.succ hm⟩

theorem congr {m' : Nat → RaiseM σ ε α} (hm : ∀ n, m' n s = m n s') (h : Ends m s') :
    Ends m' s := by
  obtain ⟨r, hr⟩ := h
  exact ⟨r, hr.congr hm⟩

theorem ite {c : Prop} [Decidable c] (ht : c → Ends m s) (hf : ¬ c → Ends n s) :
    Ends (fun k => if c then m k else n k) s := by
  split
  · exact ht ‹_›
  · exact hf ‹_›

end Ends

end RaiseM
