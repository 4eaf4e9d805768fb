import BootloaderV2.Lib.Words

/-!
# A record kept in two copies

A store of two copies holds one current record: the valid copy, or the newer of two valid ones by
their sequence numbers.  A commit writes the other copy, so a torn commit leaves the current record
in place.  `load` is the selection as a program computes it; `register` is what the two copies
hold, and the theorems say how an erased, torn or completed copy changes it.
-/

namespace TwoCopy

/-- The numerals 0 and 1 name the copies. -/
instance copies_neZero : NeZero 2 := ⟨by decide⟩

/-- A record format of fixed size.  A valid record does not end in an erased byte, so a record
    programmed in order is not valid before its last byte is there. -/
structure Format (R : Type) where
  size : Nat
  encode : R → Nat → Byte
  decode : (Nat → Byte) → R
  valid : R → Bool
  sequence : R → Word
  size_pos : 0 < size
  decode_congr : ∀ {b b' : Nat → Byte}, (∀ i, i < size → b i = b' i) → decode b = decode b'
  decode_encode : ∀ r, decode (encode r) = r
  encode_decode : ∀ b i, i < size → encode (decode b) i = b i
  encode_last : ∀ r, valid r = true → encode r (size - 1) ≠ 0xFF

/-- `a` is at most half the range ahead of `b`. -/
def sequenceNewer (a b : Word) : Bool := a - b != 0 && decide (a - b < 0x80000000)

/-- The status of a store and its current record, with the copy that holds it. -/
inductive Loaded (R : Type) where
  | valid (copy : Fin 2) (record : R)
  | empty
  | invalid

/-- What a store holds when its other copy is damaged: the record of copy `k`, if that is valid. -/
def Loaded.only {R : Type} (k : Fin 2) : Option R → Loaded R
  | some r => .valid k r
  | none => .invalid

/-- What a store holds, the copy aside. -/
inductive Register (R : Type) where
  /-- Both copies are erased. -/
  | empty
  /-- No copy is valid, and not all is erased. -/
  | spoiled
  /-- Both copies are valid and neither is newer. -/
  | ambiguous
  /-- The current record and, when the other copy is valid too, that older record. -/
  | valid (latest : R) (older : Option R)

theorem sequenceNewer_succ (a : Word) : sequenceNewer (a + 1) a = true := by
  have h : a + 1 - a = 1 := by bv_omega
  rw [sequenceNewer, h]
  rfl

/-- What the first sequence number is ahead of. -/
theorem sequenceNewer_one {a : Word} : sequenceNewer 1 a = true ↔ a = 0 ∨ 0x80000001 < a := by
  simp only [sequenceNewer, Bool.and_eq_true, bne_iff_ne, ne_eq, decide_eq_true_eq]
  constructor
  · rintro ⟨hne, hlt⟩
    bv_omega
  · intro h
    constructor <;> bv_omega

theorem sequenceNewer_asymm {a b : Word} (h : sequenceNewer a b = true) :
    sequenceNewer b a = false := by
  simp only [sequenceNewer, Bool.and_eq_true, bne_iff_ne, ne_eq, decide_eq_true_eq] at h
  simp only [sequenceNewer, Bool.and_eq_false_iff, decide_eq_false_iff_not]
  right
  bv_omega

theorem eq_zero_or_one (k : Fin 2) : k = 0 ∨ k = 1 := by
  revert k
  decide

theorem other_other (k : Fin 2) : 1 - (1 - k) = k := by
  revert k
  decide

theorem ne_other (k : Fin 2) : k ≠ 1 - k := by
  revert k
  decide

namespace Format

variable {R : Type} (F : Format R)

/-- The records are equal byte for byte. -/
def equal (a b : R) : Bool := decide (∀ i, i < F.size → F.encode a i = F.encode b i)

/-- The record area of the copy is erased. -/
def erased (b : Nat → Byte) : Bool := decide (∀ i, i < F.size → b i = 0xFF)

/-- Selects the current record of two copies. -/
def load (c : Fin 2 → Nat → Byte) : Loaded R :=
  let r0 := F.decode (c 0)
  let r1 := F.decode (c 1)
  if F.valid r0 && F.valid r1 then
    if sequenceNewer (F.sequence r0) (F.sequence r1) then .valid 0 r0
    else if sequenceNewer (F.sequence r1) (F.sequence r0) then .valid 1 r1
    else if F.equal r0 r1 then .valid 0 r0
    else .invalid
  else if F.valid r0 then .valid 0 r0
  else if F.valid r1 then .valid 1 r1
  else if F.erased (c 0) && F.erased (c 1) then .empty
  else .invalid

/-- The record of a copy, when it is valid. -/
def copy (b : Nat → Byte) : Option R :=
  if F.valid (F.decode b) then some (F.decode b) else none

def register (c : Fin 2 → Nat → Byte) : Register R :=
  match F.load c with
  | .valid k r => .valid r (F.copy (c (1 - k)))
  | .empty => .empty
  | .invalid =>
    if F.valid (F.decode (c 0)) && F.valid (F.decode (c 1)) then .ambiguous else .spoiled

theorem equal_iff {a b : R} : F.equal a b = true ↔ a = b := by
  simp only [equal, decide_eq_true_eq]
  constructor
  · intro h
    rw [← F.decode_encode a, ← F.decode_encode b]
    exact F.decode_congr h
  · rintro rfl i _
    rfl

theorem copy_congr {b b' : Nat → Byte} (h : ∀ i, i < F.size → b i = b' i) :
    F.copy b = F.copy b' := by
  simp only [copy, F.decode_congr h]

theorem copy_eq_some {b : Nat → Byte} {r : R} :
    F.copy b = some r ↔ F.valid r = true ∧ F.decode b = r := by
  unfold copy
  split
  · rename_i h
    constructor
    · intro he
      cases he
      exact ⟨h, rfl⟩
    · rintro ⟨-, rfl⟩
      rfl
  · rename_i h
    constructor
    · intro he
      cases he
    · rintro ⟨hv, rfl⟩
      exact absurd hv h

theorem copy_eq_none {b : Nat → Byte} : F.copy b = none ↔ F.valid (F.decode b) = false := by
  unfold copy
  split <;> simp_all

/-- A copy that is erased or torn short of its last byte is not valid. -/
theorem copy_torn {b : Nat → Byte} (h : b (F.size - 1) = 0xFF) : F.copy b = none := by
  rw [copy_eq_none]
  by_contra hv
  rw [Bool.not_eq_false] at hv
  apply F.encode_last _ hv
  rw [F.encode_decode _ _ (Nat.sub_lt F.size_pos Nat.one_pos), h]

theorem copy_encode {b : Nat → Byte} {r : R} (hv : F.valid r = true)
    (h : ∀ i, i < F.size → b i = F.encode r i) : F.copy b = some r := by
  rw [copy_eq_some, F.decode_congr h, F.decode_encode]
  exact ⟨hv, rfl⟩

/-- `load` in terms of what the copies hold. -/
theorem load_eq (c : Fin 2 → Nat → Byte) :
    F.load c =
      match F.copy (c 0), F.copy (c 1) with
      | some r0, some r1 =>
        if sequenceNewer (F.sequence r0) (F.sequence r1) then .valid 0 r0
        else if sequenceNewer (F.sequence r1) (F.sequence r0) then .valid 1 r1
        else if F.equal r0 r1 then .valid 0 r0
        else .invalid
      | some r0, none => .valid 0 r0
      | none, some r1 => .valid 1 r1
      | none, none => if F.erased (c 0) && F.erased (c 1) then .empty else .invalid := by
  simp only [load, copy]
  cases F.valid (F.decode (c 0)) <;> cases F.valid (F.decode (c 1)) <;> simp

theorem load_congr {c c' : Fin 2 → Nat → Byte} (h : ∀ k i, i < F.size → c k i = c' k i) :
    F.load c = F.load c' := by
  have he : ∀ k, F.erased (c k) = F.erased (c' k) := by
    intro k
    simp only [erased]
    congr 1
    apply propext
    exact forall_congr' fun i => forall_congr' fun hi => by rw [h k i hi]
  rw [load_eq, load_eq, F.copy_congr (h 0), F.copy_congr (h 1), he 0, he 1]

theorem register_congr {c c' : Fin 2 → Nat → Byte} (h : ∀ k i, i < F.size → c k i = c' k i) :
    F.register c = F.register c' := by
  simp only [register, F.load_congr h, F.decode_congr (h 0), F.decode_congr (h 1),
    fun k => F.copy_congr (h k)]

/-- The current record is valid and lies in the selected copy. -/
theorem copy_of_load {c : Fin 2 → Nat → Byte} {k : Fin 2} {r : R} (h : F.load c = .valid k r) :
    F.copy (c k) = some r := by
  rw [load_eq] at h
  cases h0 : F.copy (c 0) <;> cases h1 : F.copy (c 1) <;> simp only [h0, h1] at h
  · split at h <;> cases h
  · cases h
    exact h1
  · cases h
    exact h0
  · split at h
    · cases h
      exact h0
    · split at h
      · cases h
        exact h1
      · split at h
        · cases h
          exact h0
        · cases h

/-- A copy whose partner is not valid is the current one. -/
theorem load_of_single {c : Fin 2 → Nat → Byte} {k : Fin 2} {r : R} (h : F.copy (c k) = some r)
    (ho : F.copy (c (1 - k)) = none) : F.load c = .valid k r := by
  rw [load_eq]
  match k with
  | 0 =>
    have h1 : F.copy (c 1) = none := ho
    simp only [h, h1]
  | 1 =>
    have h0 : F.copy (c 0) = none := ho
    simp only [h, h0]

/-- A copy with the next sequence number is the current one. -/
theorem load_of_newer {c : Fin 2 → Nat → Byte} {k : Fin 2} {r o : R} (h : F.copy (c k) = some r)
    (ho : F.copy (c (1 - k)) = some o)
    (hn : sequenceNewer (F.sequence r) (F.sequence o) = true) : F.load c = .valid k r := by
  rw [load_eq]
  match k with
  | 0 =>
    have h1 : F.copy (c 1) = some o := ho
    simp only [h, h1, hn, if_true]
  | 1 =>
    have h0 : F.copy (c 0) = some o := ho
    simp only [h, h0, hn, sequenceNewer_asymm hn, Bool.false_eq_true, if_false, if_true]

theorem register_of_load {c : Fin 2 → Nat → Byte} {k : Fin 2} {r : R}
    (h : F.load c = .valid k r) : F.register c = .valid r (F.copy (c (1 - k))) := by
  simp only [register, h]

theorem load_of_register {c : Fin 2 → Nat → Byte} {r : R} {o : Option R}
    (h : F.register c = .valid r o) : ∃ k, F.load c = .valid k r ∧ o = F.copy (c (1 - k)) := by
  unfold register at h
  cases hl : F.load c with
  | valid k r' =>
    rw [hl] at h
    cases h
    exact ⟨k, rfl, rfl⟩
  | empty => rw [hl] at h; cases h
  | invalid =>
    rw [hl] at h
    dsimp only at h
    split at h <;> cases h

theorem load_empty_iff {c : Fin 2 → Nat → Byte} : F.load c = .empty ↔ F.register c = .empty := by
  unfold register
  cases F.load c with
  | valid k r => simp
  | empty => simp
  | invalid => dsimp only; split <;> simp

theorem load_invalid_iff {c : Fin 2 → Nat → Byte} :
    F.load c = .invalid ↔ F.register c = .spoiled ∨ F.register c = .ambiguous := by
  unfold register
  cases F.load c with
  | valid k r => simp
  | empty => simp
  | invalid => dsimp only; split <;> simp

/-! ## How a write changes the store -/

/-- The two pairs of copies agree on the copy other than `k`. -/
def SameOther (k : Fin 2) (c c' : Fin 2 → Nat → Byte) : Prop :=
  ∀ i, i < F.size → c' (1 - k) i = c (1 - k) i

/-- The first `p` bytes of `r`, then erased bytes. -/
def Torn (r : R) (p : Nat) (b : Nat → Byte) : Prop :=
  ∀ i, i < F.size → b i = if i < p then F.encode r i else 0xFF

variable {F}

theorem Torn.last {r : R} {p : Nat} {b : Nat → Byte} (h : F.Torn r p b) (hp : p < F.size) :
    b (F.size - 1) = 0xFF := by
  rw [h _ (Nat.sub_lt F.size_pos Nat.one_pos), if_neg (by omega)]

theorem Torn.complete {r : R} {b : Nat → Byte} (h : F.Torn r F.size b) :
    ∀ i, i < F.size → b i = F.encode r i :=
  fun i hi => by rw [h i hi, if_pos hi]

/-- A torn copy other than the current one leaves the current record alone. -/
theorem load_torn {c c' : Fin 2 → Nat → Byte} {k : Fin 2} {r n : R} {p : Nat}
    (h : F.load c = .valid k r) (ho : F.SameOther (1 - k) c c') (ht : F.Torn n p (c' (1 - k)))
    (hp : p < F.size) : F.load c' = .valid k r ∧ F.register c' = .valid r none := by
  have hk := other_other k
  unfold SameOther at ho
  rw [hk] at ho
  have hc : F.copy (c' k) = some r := by
    rw [F.copy_congr ho]
    exact F.copy_of_load h
  have hn : F.copy (c' (1 - k)) = none := F.copy_torn (ht.last hp)
  have hl := F.load_of_single hc hn
  exact ⟨hl, by rw [F.register_of_load hl, hn]⟩

/-- A complete copy with the next sequence number takes over. -/
theorem load_commit {c c' : Fin 2 → Nat → Byte} {k : Fin 2} {r n : R}
    (h : F.load c = .valid k r) (ho : F.SameOther (1 - k) c c')
    (ht : F.Torn n F.size (c' (1 - k))) (hv : F.valid n = true)
    (hs : F.sequence n = F.sequence r + 1) :
    F.load c' = .valid (1 - k) n ∧ F.register c' = .valid n (some r) := by
  have hk := other_other k
  unfold SameOther at ho
  rw [hk] at ho
  have hc : F.copy (c' k) = some r := by
    rw [F.copy_congr ho]
    exact F.copy_of_load h
  have hn : F.copy (c' (1 - k)) = some n := F.copy_encode hv ht.complete
  have hl : F.load c' = .valid (1 - k) n := by
    apply F.load_of_newer hn (hk.symm ▸ hc)
    rw [hs]
    exact sequenceNewer_succ _
  exact ⟨hl, by rw [F.register_of_load hl, hk, hc]⟩

/-- Whether a complete copy 0 becomes the current record depends on the copy it leaves alone. -/
theorem load_first_iff {c c' : Fin 2 → Nat → Byte} {n : R} (ho : F.SameOther 0 c c')
    (ht : F.Torn n F.size (c' 0)) (hv : F.valid n = true) :
    (∃ k, F.load c' = .valid k n) ↔
      ∀ o, F.copy (c 1) = some o → sequenceNewer (F.sequence n) (F.sequence o) = true ∨ o = n := by
  have h0 : F.copy (c' 0) = some n := F.copy_encode hv ht.complete
  have h1 : F.copy (c' 1) = F.copy (c 1) := F.copy_congr ho
  rw [load_eq, h0, h1]
  cases hc : F.copy (c 1) with
  | none => simp
  | some o =>
    dsimp only
    constructor
    · rintro ⟨k, hk⟩ o' ho'
      cases ho'
      split at hk
      · rename_i hnewer
        exact .inl hnewer
      · split at hk
        · exact .inr (Loaded.valid.inj hk).2
        · split at hk
          · rename_i heq
            exact .inr (F.equal_iff.1 heq).symm
          · cases hk
    · intro h
      rcases h o rfl with hnewer | rfl
      · exact ⟨0, if_pos hnewer⟩
      · -- a copy equal to the record is selected whichever of the two it is
        have hself : ¬ sequenceNewer (F.sequence o) (F.sequence o) = true := by
          simp [sequenceNewer]
        exact ⟨0, by rw [if_neg hself, if_neg hself, if_pos (F.equal_iff.2 rfl)]⟩

theorem copies_of_empty {c : Fin 2 → Nat → Byte} (h : F.load c = .empty) :
    F.erased (c 0) = true ∧ F.erased (c 1) = true := by
  rw [load_eq] at h
  cases h0 : F.copy (c 0) <;> cases h1 : F.copy (c 1) <;> simp only [h0, h1] at h
  · split at h
    · rename_i he
      simpa using he
    · cases h
  · cases h
  · cases h
  · split at h
    · cases h
    · split at h
      · cases h
      · split at h <;> cases h

theorem copy_of_erased {b : Nat → Byte} (h : F.erased b = true) : F.copy b = none := by
  simp only [erased, decide_eq_true_eq] at h
  exact F.copy_torn (h _ (Nat.sub_lt F.size_pos Nat.one_pos))

/-- A store whose copies are erased is empty. -/
theorem load_blank {c : Fin 2 → Nat → Byte} (h : ∀ k i, i < F.size → c k i = 0xFF) :
    F.load c = .empty := by
  have herased : ∀ k, F.erased (c k) = true := by
    intro k
    rw [erased, decide_eq_true_eq]
    exact h k
  rw [load_eq, copy_of_erased (herased 0), copy_of_erased (herased 1)]
  dsimp only
  rw [herased, herased]
  rfl

/-- Where one copy is neither valid nor erased, the store holds what the other copy does. -/
theorem load_damaged {c : Fin 2 → Nat → Byte} {k : Fin 2} (hv : F.copy (c k) = none)
    (he : F.erased (c k) = false) :
    F.load c = .only (1 - k) (F.copy (c (1 - k))) := by
  cases ho : F.copy (c (1 - k)) with
  | some o =>
    apply F.load_of_single ho
    rw [other_other k]
    exact hv
  | none =>
    rw [load_eq]
    match k with
    | 0 =>
      have h1 : F.copy (c 1) = none := ho
      simp only [hv, h1, he, Bool.false_and, Bool.false_eq_true, if_false]
      rfl
    | 1 =>
      have h0 : F.copy (c 0) = none := ho
      simp only [hv, h0, he, Bool.and_false, Bool.false_eq_true, if_false]
      rfl

/-- Neither copy of a store that is empty or spoiled is valid. -/
theorem copies_of_unset {c : Fin 2 → Nat → Byte}
    (h : F.register c = .empty ∨ F.register c = .spoiled) (k : Fin 2) : F.copy (c k) = none := by
  rcases h with h | h
  · have he := copies_of_empty (F.load_empty_iff.2 h)
    match k with
    | 0 => exact copy_of_erased he.1
    | 1 => exact copy_of_erased he.2
  · have hi : F.load c = .invalid := F.load_invalid_iff.2 (.inl h)
    unfold register at h
    rw [hi] at h
    dsimp only at h
    split at h
    · cases h
    · rename_i hb
      rw [Bool.and_eq_true, not_and_or, Bool.not_eq_true, Bool.not_eq_true] at hb
      rw [load_eq] at hi
      have h01 : F.copy (c 0) = none ∧ F.copy (c 1) = none := by
        rcases hb with hb | hb
        · have h0 := F.copy_eq_none.2 hb
          refine ⟨h0, ?_⟩
          cases h1 : F.copy (c 1) with
          | none => rfl
          | some r => simp only [h0, h1] at hi; cases hi
        · have h1 := F.copy_eq_none.2 hb
          refine ⟨?_, h1⟩
          cases h0 : F.copy (c 0) with
          | none => rfl
          | some r => simp only [h0, h1] at hi; cases hi
      match k with
      | 0 => exact h01.1
      | 1 => exact h01.2

theorem register_of_copies {c : Fin 2 → Nat → Byte} (h : ∀ k, F.copy (c k) = none) :
    F.register c = .empty ∨ F.register c = .spoiled := by
  have hv0 := F.copy_eq_none.1 (h 0)
  simp only [register, load_eq, h, hv0, Bool.false_and, Bool.false_eq_true, if_false]
  by_cases he : (F.erased (c 0) && F.erased (c 1)) = true
  · exact .inl (by simp only [he, if_true])
  · exact .inr (by simp only [he, Bool.false_eq_true, if_false])

/-- A store without a valid copy stays one while its first record is being written. -/
theorem register_unset_torn {c c' : Fin 2 → Nat → Byte} {n : R} {p : Nat}
    (h : F.register c = .empty ∨ F.register c = .spoiled) (ho : F.SameOther 0 c c')
    (ht : F.Torn n p (c' 0)) (hp : p < F.size) :
    F.register c' = .empty ∨ F.register c' = .spoiled := by
  refine register_of_copies fun k => ?_
  rcases eq_zero_or_one k with rfl | rfl
  · exact F.copy_torn (ht.last hp)
  · exact (F.copy_congr ho).trans (copies_of_unset h 1)

/-- The first record written to a store without a valid copy becomes the current one. -/
theorem register_first {c c' : Fin 2 → Nat → Byte} {n : R}
    (h : F.register c = .empty ∨ F.register c = .spoiled) (ho : F.SameOther 0 c c')
    (ht : F.Torn n F.size (c' 0)) (hv : F.valid n = true) :
    F.load c' = .valid 0 n ∧ F.register c' = .valid n none := by
  have h0 : F.copy (c' 0) = some n := F.copy_encode hv ht.complete
  have h1 : F.copy (c' (1 - 0)) = none :=
    (F.copy_congr ho).trans (copies_of_unset h _)
  have hl := F.load_of_single h0 h1
  exact ⟨hl, by rw [F.register_of_load hl, h1]⟩

end Format

end TwoCopy
