import Mathlib.Algebra.Ring.Nat
import Mathlib.Data.Fin.Basic
import Mathlib.Logic.Function.Basic
import Mathlib.Order.Bounds.Basic

/-!
# Bitmaps of two levels

A set of small numbers as schedulers keep it: a row of bits for each `w` consecutive numbers, and
a group of bits that says which rows are not empty. That the group says so is a field of
`PrioritySet`, and every operation keeps it. Two sets with the same members are equal.

The least member takes two searches for the lowest bit of a word, one in the group and one in
the row that it names. Nothing here knows what the numbers stand for.
-/

/-! ### The lowest bit of a word -/

namespace BitVec

/-- The position of the lowest bit that is set, and 0 where there is none. -/
def lowestBit {w : ℕ} (b : BitVec w) : ℕ :=
  ((List.range w).find? b.getLsbD).getD 0

section

variable {w : ℕ} {b : BitVec w}

theorem lowestBit_le {i : ℕ} (h : b.getLsbD i = true) : lowestBit b ≤ i := by
  have hi : i < w := BitVec.lt_of_getLsbD h
  unfold lowestBit
  rcases hfind : (List.range w).find? b.getLsbD with - | j
  · simp
  · obtain ⟨-, k, hk, hkj, hbefore⟩ := List.find?_eq_some_iff_getElem.1 hfind
    obtain rfl : k = j := by simpa using hkj
    by_contra hlt
    have := hbefore i (by simpa using hlt)
    simp [h] at this

theorem getLsbD_lowestBit (h : b ≠ 0#w) : b.getLsbD (lowestBit b) = true := by
  unfold lowestBit
  rcases hfind : (List.range w).find? b.getLsbD with - | j
  · refine absurd (BitVec.eq_of_getLsbD_eq fun i hi ↦ ?_) h
    simpa using List.find?_eq_none.1 hfind i (by simpa using hi)
  · exact List.find?_some hfind

/-- The lowest bit is below any positive bound on the bits that are set. -/
theorem lowestBit_lt_of_forall {n : ℕ} (hn : 0 < n) (h : ∀ i, b.getLsbD i = true → i < n) :
    lowestBit b < n := by
  rcases eq_or_ne b 0#w with rfl | hne
  · refine lt_of_eq_of_lt ?_ hn
    unfold lowestBit
    rw [List.find?_eq_none.2 (by simp)]
    rfl
  · exact h _ (getLsbD_lowestBit hne)

theorem lowestBit_lt (hw : 0 < w) : lowestBit b < w :=
  lowestBit_lt_of_forall hw fun _ ↦ BitVec.lt_of_getLsbD

end

end BitVec

/-! ### The sets -/

/-- A set of numbers below `w * rows`. -/
structure PrioritySet (w rows : ℕ) where
  /-- Bit `y` is set when row `y` is not empty. -/
  group : BitVec w
  /-- Bit `x` of row `y` is set when `w * y + x` is a member. -/
  table : Fin rows → BitVec w
  rows_le : rows ≤ w
  group_iff : ∀ y : Fin rows, group.getLsbD y = true ↔ table y ≠ 0#w
  lt_rows : ∀ y, group.getLsbD y = true → y < rows

namespace PrioritySet

open BitVec (lowestBit lowestBit_le lowestBit_lt lowestBit_lt_of_forall getLsbD_lowestBit)

variable {w rows : ℕ}

/-- The row of a number. -/
def row (p : Fin (w * rows)) : Fin rows :=
  ⟨p / w, Nat.div_lt_of_lt_mul p.2⟩

/-- The position of a number in its row. -/
def column (p : Fin (w * rows)) : ℕ :=
  p % w

theorem pos_of_fin (p : Fin (w * rows)) : 0 < w :=
  Nat.pos_of_ne_zero fun h ↦ by
    have := p.2
    simp [h] at this

theorem column_lt (p : Fin (w * rows)) : column p < w :=
  Nat.mod_lt _ (pos_of_fin p)

/-- A number is known by its row and its position there. -/
theorem eq_iff_row_column {p q : Fin (w * rows)} :
    p = q ↔ row p = row q ∧ column p = column q := by
  constructor
  · rintro rfl
    exact ⟨rfl, rfl⟩
  · rintro ⟨hrow, hcolumn⟩
    have hdiv : (p : ℕ) / w = q / w := congrArg Fin.val hrow
    have hmod : (p : ℕ) % w = q % w := hcolumn
    refine Fin.ext ?_
    rw [← Nat.div_add_mod (p : ℕ) w, hdiv, hmod, Nat.div_add_mod]

instance : Membership (Fin (w * rows)) (PrioritySet w rows) :=
  ⟨fun s p ↦ (s.table (row p)).getLsbD (column p) = true⟩

theorem mem_def {s : PrioritySet w rows} {p : Fin (w * rows)} :
    p ∈ s ↔ (s.table (row p)).getLsbD (column p) = true :=
  Iff.rfl

instance (s : PrioritySet w rows) (p : Fin (w * rows)) : Decidable (p ∈ s) :=
  decidable_of_iff _ mem_def.symm

/-- Two sets with the same rows are equal: the group follows from the rows. -/
theorem eq_of_table_eq {s t : PrioritySet w rows} (h : s.table = t.table) : s = t := by
  have hgroup : s.group = t.group := by
    refine BitVec.eq_of_getLsbD_eq fun y _ ↦ Bool.eq_iff_iff.2 ?_
    by_cases hy : y < rows
    · rw [s.group_iff ⟨y, hy⟩, t.group_iff ⟨y, hy⟩, h]
    · exact ⟨fun hs ↦ absurd (s.lt_rows y hs) hy, fun ht ↦ absurd (t.lt_rows y ht) hy⟩
  cases s
  cases t
  simp_all

/-- **Two sets with the same members are equal.** -/
theorem ext {s t : PrioritySet w rows} (h : ∀ p, p ∈ s ↔ p ∈ t) : s = t := by
  refine eq_of_table_eq (funext fun y ↦ BitVec.eq_of_getLsbD_eq fun x hx ↦ ?_)
  have hlt : w * y + x < w * rows :=
    calc w * y + x < w * y + w := Nat.add_lt_add_left hx _
      _ = w * (y + 1) := by rw [Nat.mul_succ]
      _ ≤ w * rows := Nat.mul_le_mul_left w y.2
  have hrow : row (⟨w * y + x, hlt⟩ : Fin (w * rows)) = y := by
    refine Fin.ext ?_
    change (w * y + x) / w = y
    rw [Nat.mul_add_div (by omega), Nat.div_eq_of_lt hx, Nat.add_zero]
  have hcolumn : column (⟨w * y + x, hlt⟩ : Fin (w * rows)) = x := by
    change (w * y + x) % w = x
    rw [Nat.mul_add_mod, Nat.mod_eq_of_lt hx]
  have := h ⟨w * y + x, hlt⟩
  rw [mem_def, mem_def, hrow, hcolumn] at this
  exact Bool.eq_iff_iff.2 this

/-! ### The empty set, adding and taking away -/

/-- The set with no member. -/
def empty (h : rows ≤ w) : PrioritySet w rows where
  group := 0#w
  table _ := 0#w
  rows_le := h
  group_iff := by simp
  lt_rows := by simp

@[simp]
theorem not_mem_empty (h : rows ≤ w) (p : Fin (w * rows)) : p ∉ (empty h : PrioritySet w rows) := by
  simp [mem_def, empty]

theorem getLsbD_or_twoPow {b : BitVec w} {i j : ℕ} (hi : i < w) :
    (b ||| BitVec.twoPow w i).getLsbD j = true ↔ j = i ∨ b.getLsbD j = true := by
  rw [BitVec.getLsbD_or, BitVec.getLsbD_twoPow]
  simp only [Bool.or_eq_true, Bool.and_eq_true, decide_eq_true_eq]
  constructor
  · rintro (h | ⟨-, rfl⟩)
    · exact Or.inr h
    · exact Or.inl rfl
  · rintro (rfl | h)
    · exact Or.inr ⟨hi, rfl⟩
    · exact Or.inl h

theorem getLsbD_and_not_twoPow {b : BitVec w} {i j : ℕ} :
    (b &&& ~~~BitVec.twoPow w i).getLsbD j = true ↔ j ≠ i ∧ b.getLsbD j = true := by
  rw [BitVec.getLsbD_and, BitVec.getLsbD_not, BitVec.getLsbD_twoPow]
  constructor
  · intro h
    have hj := BitVec.lt_of_getLsbD (Bool.and_eq_true_iff.1 h).1
    simp only [hj, decide_true, Bool.true_and, Bool.and_eq_true, Bool.not_eq_true',
      Bool.and_eq_false_iff, decide_eq_false_iff_not] at h
    rcases h with ⟨hb, hi | hne⟩
    · have hij : j ≠ i := fun hij ↦ hi (hij ▸ hj)
      exact ⟨hij, hb⟩
    · exact ⟨fun hji ↦ hne hji.symm, hb⟩
  · rintro ⟨hne, hb⟩
    have hj := BitVec.lt_of_getLsbD hb
    simp [hb, hj, Ne.symm hne]

theorem or_twoPow_ne_zero {b : BitVec w} {i : ℕ} (hi : i < w) : b ||| BitVec.twoPow w i ≠ 0#w := by
  intro h
  have hbit := (getLsbD_or_twoPow (b := b) hi).2 (Or.inl rfl)
  rw [h] at hbit
  simp at hbit

/-- Add a number: set its bit in its row, and the bit of its row in the group. -/
def insert (s : PrioritySet w rows) (p : Fin (w * rows)) : PrioritySet w rows where
  group := s.group ||| BitVec.twoPow w (row p)
  table := Function.update s.table (row p) (s.table (row p) ||| BitVec.twoPow w (column p))
  rows_le := s.rows_le
  group_iff y := by
    rw [getLsbD_or_twoPow (lt_of_lt_of_le (row p).2 s.rows_le)]
    rcases eq_or_ne y (row p) with rfl | hne
    · simp [or_twoPow_ne_zero (column_lt p)]
    · rw [Function.update_of_ne hne, ← s.group_iff]
      simp [Fin.val_ne_of_ne hne]
  lt_rows y h := by
    rcases (getLsbD_or_twoPow (lt_of_lt_of_le (row p).2 s.rows_le)).1 h with rfl | h
    · exact (row p).2
    · exact s.lt_rows y h

/-- Take a number away: clear its bit in its row, and the bit of its row in the group if the
row has become empty. -/
def remove (s : PrioritySet w rows) (p : Fin (w * rows)) : PrioritySet w rows where
  group :=
    if s.table (row p) &&& ~~~BitVec.twoPow w (column p) = 0#w then
      s.group &&& ~~~BitVec.twoPow w (row p)
    else
      s.group
  table := Function.update s.table (row p) (s.table (row p) &&& ~~~BitVec.twoPow w (column p))
  rows_le := s.rows_le
  group_iff y := by
    rcases eq_or_ne y (row p) with rfl | hne
    · rw [Function.update_self]
      split_ifs with hzero
      · simp [hzero]
      · simp only [hzero, ne_eq, not_false_eq_true, iff_true]
        refine (s.group_iff _).2 fun hrow ↦ hzero ?_
        rw [hrow, BitVec.zero_and]
    · rw [Function.update_of_ne hne, ← s.group_iff]
      split_ifs
      · rw [getLsbD_and_not_twoPow]
        exact ⟨And.right, fun h ↦ ⟨Fin.val_ne_of_ne hne, h⟩⟩
      · exact Iff.rfl
  lt_rows y h := by
    split_ifs at h
    · exact s.lt_rows y (getLsbD_and_not_twoPow.1 h).2
    · exact s.lt_rows y h

@[simp]
theorem mem_insert {s : PrioritySet w rows} {p q : Fin (w * rows)} :
    q ∈ s.insert p ↔ q = p ∨ q ∈ s := by
  rw [mem_def, mem_def, eq_iff_row_column]
  rcases eq_or_ne (row q) (row p) with hrow | hrow
  · simp only [insert, hrow, Function.update_self, true_and]
    exact getLsbD_or_twoPow (column_lt p)
  · simp [insert, hrow]

@[simp]
theorem mem_remove {s : PrioritySet w rows} {p q : Fin (w * rows)} :
    q ∈ s.remove p ↔ q ≠ p ∧ q ∈ s := by
  rw [mem_def, mem_def, Ne, eq_iff_row_column]
  rcases eq_or_ne (row q) (row p) with hrow | hrow
  · simp only [remove, hrow, Function.update_self, true_and]
    exact getLsbD_and_not_twoPow
  · simp [remove, hrow]

/-! ### The least member -/

/-- The group tells whether there is a member. -/
theorem group_ne_zero_iff {s : PrioritySet w rows} : s.group ≠ 0#w ↔ ∃ p, p ∈ s := by
  constructor
  · intro h
    by_contra hnone
    have hempty : s = empty s.rows_le := ext fun p ↦ by
      simpa using fun hp ↦ hnone ⟨p, hp⟩
    exact h (congrArg PrioritySet.group hempty)
  · rintro ⟨p, hp⟩ hzero
    have hrow : s.table (row p) ≠ 0#w := fun h ↦ by
      rw [mem_def, h] at hp
      simp at hp
    have := (s.group_iff _).2 hrow
    rw [hzero] at this
    simp at this

variable [NeZero rows]

theorem lowestBit_group_lt (s : PrioritySet w rows) : lowestBit s.group < rows :=
  lowestBit_lt_of_forall (Nat.pos_of_neZero rows) s.lt_rows

/-- The row of the least member. -/
def leastRow (s : PrioritySet w rows) : Fin rows :=
  ⟨lowestBit s.group, s.lowestBit_group_lt⟩

theorem leastRow_lowestBit_lt (s : PrioritySet w rows) :
    w * s.leastRow + lowestBit (s.table s.leastRow) < w * rows :=
  calc w * s.leastRow + lowestBit (s.table s.leastRow) < w * s.leastRow + w :=
        Nat.add_lt_add_left (lowestBit_lt (lt_of_lt_of_le (Nat.pos_of_neZero rows) s.rows_le)) _
    _ = w * (s.leastRow + 1) := by rw [Nat.mul_succ]
    _ ≤ w * rows := Nat.mul_le_mul_left w s.leastRow.2

/-- The least member, and 0 where there is none. -/
def least (s : PrioritySet w rows) : Fin (w * rows) :=
  ⟨w * s.leastRow + lowestBit (s.table s.leastRow), s.leastRow_lowestBit_lt⟩

theorem row_least (s : PrioritySet w rows) : row s.least = s.leastRow := by
  have hw : 0 < w := lt_of_lt_of_le (Nat.pos_of_neZero rows) s.rows_le
  refine Fin.ext ?_
  change (w * s.leastRow + lowestBit (s.table s.leastRow)) / w = s.leastRow
  rw [Nat.mul_add_div hw, Nat.div_eq_of_lt (lowestBit_lt hw), Nat.add_zero]

theorem column_least (s : PrioritySet w rows) :
    column s.least = lowestBit (s.table s.leastRow) := by
  have hw : 0 < w := lt_of_lt_of_le (Nat.pos_of_neZero rows) s.rows_le
  change (w * s.leastRow + lowestBit (s.table s.leastRow)) % w = _
  rw [Nat.mul_add_mod, Nat.mod_eq_of_lt (lowestBit_lt hw)]

theorem least_mem {s : PrioritySet w rows} (h : ∃ p, p ∈ s) : s.least ∈ s := by
  rw [mem_def, row_least, column_least]
  refine getLsbD_lowestBit ((s.group_iff _).1 ?_)
  exact getLsbD_lowestBit (group_ne_zero_iff.2 h)

theorem least_le {s : PrioritySet w rows} {p : Fin (w * rows)} (h : p ∈ s) : s.least ≤ p := by
  have hgroup : s.group.getLsbD (row p) = true := (s.group_iff _).2 fun hrow ↦ by
    rw [mem_def, hrow] at h
    simp at h
  have hrow : (s.leastRow : ℕ) ≤ row p := lowestBit_le hgroup
  change w * s.leastRow + lowestBit (s.table s.leastRow) ≤ (p : ℕ)
  rw [← Nat.div_add_mod (p : ℕ) w]
  rcases hrow.lt_or_eq with hlt | heq
  · have hbit := lowestBit_lt (b := s.table s.leastRow) (pos_of_fin p)
    have hle : w * (s.leastRow + 1) ≤ w * (row p : ℕ) := Nat.mul_le_mul_left w hlt
    rw [Nat.mul_succ] at hle
    change _ ≤ w * (row p : ℕ) + _
    omega
  · have hbit : lowestBit (s.table s.leastRow) ≤ column p :=
      lowestBit_le (by rw [Fin.ext heq]; exact h)
    rw [heq]
    exact Nat.add_le_add_left hbit _

/-- **Two searches for a lowest bit find the least member.** -/
theorem isLeast_least {s : PrioritySet w rows} (h : ∃ p, p ∈ s) :
    IsLeast {p | p ∈ s} s.least :=
  ⟨least_mem h, fun _ ↦ least_le⟩

end PrioritySet
