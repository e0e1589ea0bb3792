import Mathlib.Data.BitVec
import MappingRobot.Library.Alternation

/-!
# Clock dividers

A counter that is loaded with a divisor `D` when it has come to 0, and an enable that is on in the
clock after that, so in one of `D + 1` clocks. `Due D counter enable n` says that the enable is on
in `n` clocks from now. A load at any other moment puts it off.

`countdown D k` is the counter `k` clocks after a load with no other load since, and
`k / (D + 1)` is how many rounds are over by then (`countdown_succ`).
-/

namespace ClockDivider

open Alternation

variable {w : ℕ} {D counter : BitVec w} {enable : Bool} {n : ℕ}

/-- The enable is on in `n` clocks. -/
def Due (D counter : BitVec w) (enable : Bool) : ℕ → Prop
  | 0 => enable = true ∧ counter = D
  | n + 1 => enable = false ∧ counter.toNat = n

/-- The counter in the next clock. -/
def tick (D counter : BitVec w) : BitVec w :=
  if counter = 0#w then D else counter - 1#w

theorem toNat_sub_one (h : counter ≠ 0#w) : (counter - 1#w).toNat = counter.toNat - 1 := by
  have hpos : counter.toNat ≠ 0 := fun hzero ↦ h (BitVec.eq_of_toNat_eq hzero)
  have hlt := counter.isLt
  have hw : 1 < 2 ^ w := by omega
  rw [BitVec.toNat_sub_of_le]
  · rw [BitVec.toNat_ofNat, Nat.mod_eq_of_lt hw]
  · rw [BitVec.le_def, BitVec.toNat_ofNat, Nat.mod_eq_of_lt hw]
    omega

/-- A clock brings the enable nearer, or starts the next round. -/
theorem Due.tick (h : Due D counter enable n) (hD : D ≠ 0#w) :
    Due D (tick D counter) (counter == 0#w) (if n = 0 then D.toNat else n - 1) := by
  have hpos : D.toNat ≠ 0 := fun hzero ↦ hD (BitVec.eq_of_toNat_eq hzero)
  rcases n with _ | _ | n
  · obtain ⟨-, rfl⟩ := h
    obtain ⟨m, hm⟩ := Nat.exists_eq_succ_of_ne_zero hpos
    rw [if_pos rfl, hm, ClockDivider.tick, if_neg hD]
    exact ⟨by simpa using hD, by rw [toNat_sub_one hD, hm]; rfl⟩
  · have hzero : counter = 0#w := BitVec.eq_of_toNat_eq h.2
    rw [ClockDivider.tick, if_pos hzero]
    exact ⟨by simp [hzero], rfl⟩
  · have hne : counter ≠ 0#w := by
      rintro rfl
      simpa using h.2
    rw [ClockDivider.tick, if_neg hne]
    exact ⟨by simpa using hne, by rw [toNat_sub_one hne, h.2]; rfl⟩

/-- A load while the enable is off. -/
theorem due_load (D counter : BitVec w) : Due D counter false (counter.toNat + 1) :=
  ⟨rfl, rfl⟩

/-! ### Rounds -/

/-- The counter `k` clocks after a load, and after those that follow. -/
def countdown (D : BitVec w) (k : ℕ) : BitVec w :=
  BitVec.ofNat w (D.toNat - k % (D.toNat + 1))

theorem toNat_countdown (D : BitVec w) (k : ℕ) :
    (countdown D k).toNat = D.toNat - k % (D.toNat + 1) := by
  have hlt := D.isLt
  rw [countdown, BitVec.toNat_ofNat, Nat.mod_eq_of_lt (by omega)]

/-- The counter is 0 in the last clock of a round. -/
theorem countdown_eq_zero_iff (D : BitVec w) (k : ℕ) :
    countdown D k = 0#w ↔ k % (D.toNat + 1) = D.toNat := by
  have hlt := Nat.mod_lt k (Nat.add_one_pos D.toNat)
  rw [← BitVec.toNat_inj, toNat_countdown, BitVec.toNat_ofNat, Nat.zero_mod]
  omega

/-- **A clock** goes on in the round or begins the next one. -/
theorem countdown_succ (D : BitVec w) (k : ℕ) :
    tick D (countdown D k) = countdown D (k + 1) ∧
      (k + 1) / (D.toNat + 1) =
        k / (D.toNat + 1) + (if countdown D k = 0#w then 1 else 0) ∧
      (k + 1) % (D.toNat + 1) =
        if countdown D k = 0#w then 0 else k % (D.toNat + 1) + 1 := by
  rcases succ_div_mod (Nat.add_one_pos D.toNat) k with ⟨hlt, hdiv, hmod⟩ | ⟨hend, hdiv, hmod⟩
  · have hne : countdown D k ≠ 0#w := (countdown_eq_zero_iff D k).not.2 (by omega)
    simp only [if_neg hne, tick]
    refine ⟨BitVec.eq_of_toNat_eq ?_, hdiv, hmod⟩
    rw [toNat_sub_one hne, toNat_countdown, toNat_countdown]
    omega
  · have hzero : countdown D k = 0#w := (countdown_eq_zero_iff D k).2 (by omega)
    simp only [if_pos hzero, tick]
    refine ⟨BitVec.eq_of_toNat_eq ?_, hdiv, hmod⟩
    rw [toNat_countdown]
    omega

end ClockDivider
