import BootloaderV2.Lib.Raising

/-!
# Programs that keep a log

A program over a state with a log appends to it.  `Logs log m Q E` says of every run of `m` what it has
appended by its end, together with what it returns or raises.
-/

namespace RaiseM

variable {σ ε α β ω : Type} {log : σ → List ω}

theorem Ensures.tryCatch {m : RaiseM σ ε α} {handle : ε → RaiseM σ ε α} {Q : α → σ → Prop}
    {E E' : ε → σ → Prop} {s : σ} (h : Ensures m Q E s)
    (hhandle : ∀ e s', E e s' → Ensures (handle e) Q E' s') :
    Ensures (RaiseM.tryCatch m handle) Q E' s := by
  unfold Ensures at h ⊢
  unfold RaiseM.tryCatch
  cases hm : m s with
  | none => trivial
  | some r =>
    obtain ⟨res, s'⟩ := r
    rw [hm] at h
    cases res with
    | ok a => exact h
    | error e => exact hhandle e s' h

/-- From any state `m` returns in `Q` or raises in `E`, given what it has appended to the log. -/
def Logs (log : σ → List ω) (m : RaiseM σ ε α) (Q : List ω → α → σ → Prop)
    (E : List ω → ε → Prop) : Prop :=
  ∀ s, Ensures m (fun a s' => ∃ l, log s' = log s ++ l ∧ Q l a s')
    (fun e s' => ∃ l, log s' = log s ++ l ∧ E l e) s

namespace Logs

variable {m n : RaiseM σ ε α} {f : α → RaiseM σ ε β} {Q Q' : List ω → α → σ → Prop}
  {E E' : List ω → ε → Prop} {R : List ω → β → σ → Prop}

theorem mono (h : Logs log m Q E) (hQ : ∀ l a s, Q l a s → Q' l a s) (hE : ∀ l e, E l e → E' l e) :
    Logs log m Q' E' := by
  intro s
  refine (h s).mono ?_ ?_
  · rintro a s' ⟨l, hl, hq⟩
    exact ⟨l, hl, hQ l a s' hq⟩
  · rintro e s' ⟨l, hl, he⟩
    exact ⟨l, hl, hE l e he⟩

/-- What does not touch the log appends nothing. -/
theorem silent (h : ∀ s, Ensures m (fun a s' => log s' = log s ∧ Q [] a s')
    (fun e s' => log s' = log s ∧ E [] e) s) : Logs log m Q E := by
  intro s
  refine (h s).mono ?_ ?_
  · rintro a s' ⟨hl, hq⟩
    exact ⟨[], by rw [hl, List.append_nil], hq⟩
  · rintro e s' ⟨hl, he⟩
    exact ⟨[], by rw [hl, List.append_nil], he⟩

theorem pure {a : α} (h : ∀ s, Q [] a s) : Logs log (Pure.pure a) Q E :=
  silent fun s => Ensures.pure ⟨rfl, h s⟩

theorem raise {e : ε} (h : E [] e) : Logs log (RaiseM.raise e) Q E :=
  silent fun _ => Ensures.raise ⟨rfl, h⟩

theorem exhausted : Logs log RaiseM.exhausted Q E := fun _ => trivial

theorem lift {x : Except ε α} (hok : ∀ a, x = .ok a → ∀ s, Q [] a s)
    (herror : ∀ e, x = .error e → E [] e) : Logs log (RaiseM.lift x) Q E :=
  silent fun s => Ensures.lift (fun a h => ⟨rfl, hok a h s⟩) fun e h => ⟨rfl, herror e h⟩

theorem modify {g : σ → σ} {Q : List ω → Unit → σ → Prop} (hlog : ∀ s, log (g s) = log s)
    (h : ∀ s, Q [] () (g s)) : Logs log (RaiseM.modify g) Q E :=
  silent fun s => (⟨hlog s, h s⟩ : log (g s) = log s ∧ Q [] () (g s))

/-- One program after the other appends one log to the other. -/
theorem bind {F : List ω → ε → Prop} (h : Logs log m Q F)
    (hf : ∀ l a, (∃ s, Q l a s) → Logs log (f a) (fun l' => R (l ++ l')) fun l' => E (l ++ l'))
    (hE : ∀ l e, F l e → E l e) : Logs log (m >>= f) R E := by
  intro s
  refine ((h s).mono (fun a s' h => h) ?_).bind ?_
  · rintro e s' ⟨l, hl, he⟩
    exact ⟨l, hl, hE l e he⟩
  · rintro a s' ⟨l, hl, hq⟩
    refine (hf l a ⟨s', hq⟩ s').mono ?_ ?_
    · rintro b s'' ⟨l', hl', hr⟩
      exact ⟨l ++ l', by rw [hl', hl, List.append_assoc], hr⟩
    · rintro e s'' ⟨l', hl', he⟩
      exact ⟨l ++ l', by rw [hl', hl, List.append_assoc], he⟩

theorem tryCatch {handle : ε → RaiseM σ ε α} {F : List ω → ε → Prop} (h : Logs log m Q F)
    (hhandle : ∀ l e, F l e →
      Logs log (handle e) (fun l' => Q (l ++ l')) fun l' => E (l ++ l')) :
    Logs log (RaiseM.tryCatch m handle) Q E := by
  intro s
  refine (h s).tryCatch ?_
  rintro e s' ⟨l, hl, he⟩
  refine (hhandle l e he s').mono ?_ ?_
  · rintro b s'' ⟨l', hl', hr⟩
    exact ⟨l ++ l', by rw [hl', hl, List.append_assoc], hr⟩
  · rintro e' s'' ⟨l', hl', he'⟩
    exact ⟨l ++ l', by rw [hl', hl, List.append_assoc], he'⟩

theorem ite {c : Prop} [Decidable c] (ht : c → Logs log m Q E) (hf : ¬ c → Logs log n Q E) :
    Logs log (if c then m else n) Q E := by
  split
  · exact ht ‹_›
  · exact hf ‹_›

end Logs

end RaiseM
