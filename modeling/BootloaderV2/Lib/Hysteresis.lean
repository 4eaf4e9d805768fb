import Mathlib.Data.List.DropRight
import Mathlib.Tactic.Common

/-!
# Hysteresis over a history

A flag that goes up after `m` reports of one kind in a row and down after `n` of the other.  `Raised`
says from the history alone whether it is up; `streak` is what a counter sees of the history.  The
step lemmas say how both follow the reports.
-/

namespace Hysteresis

variable {α : Type} {a b up down : α} {m n : Nat} {history : List α}

/-- A list is empty or has a last element. -/
private theorem concat_cases (after : List α) : after = [] ∨ ∃ init x, after = init ++ [x] := by
  cases after using List.reverseRecOn with
  | nil => exact .inl rfl
  | append_singleton init x => exact .inr ⟨init, x, rfl⟩

/-- `m` reports of `up` in a row, and after them never `n` reports of `down` in a row. -/
def Raised (up down : α) (m n : Nat) (history : List α) : Prop :=
  ∃ before after, history = before ++ List.replicate m up ++ after ∧
    ¬ List.replicate n down <:+: after

theorem not_raised_nil (hm : 0 < m) : ¬ Raised up down m n [] := by
  intro h
  obtain ⟨before, after, heq, -⟩ := h
  have hlength := congrArg List.length heq
  simp only [List.length_nil, List.length_append, List.length_replicate] at hlength
  omega

variable [DecidableEq α]

/-- How many reports of `a` the history ends with. -/
def streak (a : α) (history : List α) : Nat := (history.rtakeWhile (· = a)).length

@[simp] theorem streak_nil (a : α) : streak a [] = 0 := rfl

@[simp] theorem streak_concat_self (a : α) (history : List α) :
    streak a (history ++ [a]) = streak a history + 1 := by
  unfold streak
  rw [List.rtakeWhile_concat_pos _ _ _ (by simp), List.length_append]
  rfl

theorem streak_concat_of_ne (h : b ≠ a) (history : List α) : streak a (history ++ [b]) = 0 := by
  unfold streak
  rw [List.rtakeWhile_concat_neg _ _ _ (by simpa using h), List.length_nil]

/-- A report of another kind hides what is before it. -/
theorem streak_append_of_ne (h : b ≠ a) (before after : List α) :
    streak a (before ++ [b] ++ after) = streak a after := by
  induction after using List.reverseRecOn with
  | nil => rw [List.append_nil, streak_concat_of_ne h, streak_nil]
  | append_singleton after x ih =>
    rw [← List.append_assoc]
    by_cases hx : x = a
    · rw [hx, streak_concat_self, streak_concat_self, ih]
    · rw [streak_concat_of_ne hx, streak_concat_of_ne hx]

/-- A history ends with reports of one kind only. -/
theorem streak_eq_zero_of_ne (h : a ≠ b) (history : List α) :
    streak a history = 0 ∨ streak b history = 0 := by
  induction history using List.reverseRecOn with
  | nil => exact .inl rfl
  | append_singleton history x =>
    by_cases hx : x = a
    · right
      exact streak_concat_of_ne (hx ▸ h) history
    · left
      exact streak_concat_of_ne hx history

theorem replicate_suffix_iff : List.replicate n a <:+ history ↔ n ≤ streak a history := by
  induction history using List.reverseRecOn generalizing n with
  | nil =>
    rw [List.suffix_nil, List.replicate_eq_nil_iff, streak_nil]
    omega
  | append_singleton history x ih =>
    cases n with
    | zero => simp
    | succ n =>
      rw [List.suffix_concat_iff, List.replicate_succ']
      by_cases hx : x = a
      · rw [hx, streak_concat_self, Nat.succ_le_succ_iff, ← ih]
        simp
      · rw [streak_concat_of_ne hx]
        have hne : a ≠ x := fun h => hx h.symm
        simp [hne]

theorem raised_concat_up (hne : up ≠ down) (hn : 0 < n) :
    Raised up down m n (history ++ [up]) ↔
      m ≤ streak up (history ++ [up]) ∨ Raised up down m n history := by
  constructor
  · intro h
    obtain ⟨before, after, heq, hafter⟩ := h
    rcases concat_cases after with rfl | ⟨init, x, rfl⟩
    · left
      rw [← replicate_suffix_iff]
      rw [List.append_nil] at heq
      exact ⟨before, heq.symm⟩
    · right
      rw [← List.append_assoc] at heq
      refine ⟨before, init, (List.append_inj' heq rfl).1, fun hin => hafter ?_⟩
      exact List.infix_append_of_infix_left hin
  · intro h
    rcases h with h | h
    · rw [← replicate_suffix_iff] at h
      obtain ⟨before, hbefore⟩ := h
      refine ⟨before, [], by rw [List.append_nil, hbefore], fun hin => ?_⟩
      have hlength := hin.length_le
      rw [List.length_replicate, List.length_nil] at hlength
      omega
    · obtain ⟨before, after, rfl, hafter⟩ := h
      refine ⟨before, after ++ [up], by rw [← List.append_assoc], fun hin => ?_⟩
      rcases List.infix_concat_iff.1 hin with hsuffix | hin
      · -- the run would have to end with the last report, which is of the other kind
        rw [replicate_suffix_iff, streak_concat_of_ne hne] at hsuffix
        omega
      · exact hafter hin

theorem raised_concat_down (hne : up ≠ down) (hm : 0 < m) :
    Raised up down m n (history ++ [down]) ↔
      streak down (history ++ [down]) < n ∧ Raised up down m n history := by
  constructor
  · intro h
    obtain ⟨before, after, heq, hafter⟩ := h
    rcases concat_cases after with rfl | ⟨init, x, rfl⟩
    · have hstreak : m ≤ streak up (history ++ [down]) := by
        rw [← replicate_suffix_iff, heq, List.append_nil]
        exact List.suffix_append _ _
      rw [streak_concat_of_ne hne.symm] at hstreak
      omega
    · have hsplit := heq
      rw [← List.append_assoc] at hsplit
      obtain ⟨hhistory, hx⟩ := List.append_inj' hsplit rfl
      refine ⟨?_, before, init, hhistory, fun hin => hafter ?_⟩
      · by_contra hle
        -- a run of `down` at the end lies behind the last `up`
        obtain ⟨k, hk⟩ : ∃ k, m = k + 1 := ⟨m - 1, by omega⟩
        rw [heq, hk, List.replicate_succ', ← List.append_assoc before,
          streak_append_of_ne hne, not_lt, ← replicate_suffix_iff] at hle
        exact hafter hle.isInfix
      · exact List.infix_append_of_infix_left hin
  · intro h
    obtain ⟨hlt, before, after, rfl, hafter⟩ := h
    refine ⟨before, after ++ [down], by rw [← List.append_assoc], fun hin => ?_⟩
    rcases List.infix_concat_iff.1 hin with hsuffix | hin
    · have hstreak : List.replicate n down <:+ before ++ List.replicate m up ++ after ++ [down] := by
        rw [List.append_assoc _ after]
        exact hsuffix.trans (List.suffix_append _ _)
      rw [replicate_suffix_iff] at hstreak
      omega
    · exact hafter hin

end Hysteresis
