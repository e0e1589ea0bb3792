import Mathlib.Data.BitVec
import Mathlib.Tactic.Ring
import Mathlib.Tactic.LinearCombination
import MappingRobot.Library.Run

/-!
# The stepper driver

The clocked process of `stepper_driver.vhd`: an Avalon slave that counts down `num_step` and
moves the motor one phase at a time. All signals of the process read their value from before
the clock edge, and of two assignments to the same signal on one edge the later one takes
effect: `clockEdge` is written so that the motor rotation overrides the write handling.

That override is what the accounting at the end is about. `Account` keeps, next to the driver,
the sum of the words written to address `0` and the phase steps observed at `cur_step`. An edge
keeps the account balanced exactly when it loses no word (`Account.balanced_edge_iff`).
-/

namespace MappingRobot

/-- `STEP_NUMBER`, the eight phases. -/
inductive StepNumber
  | a | b | c | d | e | f | g | h
deriving DecidableEq

namespace StepNumber

/-- The phase after this one, in forward direction. -/
def next : StepNumber → StepNumber
  | a => b | b => c | c => d | d => e | e => f | f => g | g => h | h => a

/-- The phase before this one. -/
def prev : StepNumber → StepNumber
  | a => h | b => a | c => b | d => c | e => d | f => e | g => f | h => g

theorem ne_next (p : StepNumber) : p ≠ p.next := by
  cases p <;> decide

theorem ne_prev (p : StepNumber) : p ≠ p.prev := by
  cases p <;> decide

theorem next_ne_prev (p : StepNumber) : p.next ≠ p.prev := by
  cases p <;> decide

end StepNumber

/-- The registers of the stepper driver. -/
structure Stepper where
  /-- `cur_step` -/
  curStep : StepNumber
  /-- `step_speed` -/
  stepSpeed : BitVec 32
  /-- `num_step`, a signed number -/
  numStep : BitVec 32
  /-- `step_divisor` -/
  stepDivisor : BitVec 32
deriving DecidableEq

/-- The Avalon inputs on one clock edge. -/
structure Avalon where
  write : Bool
  writedata : BitVec 32
  address : BitVec 1

namespace Stepper

/-- The power-up values of the signals. -/
def powerUp : Stepper where
  curStep := .a
  stepSpeed := 0x0001FFFF
  numStep := 0xFFFFFF39
  stepDivisor := 0x00000000

/-- The write handling of a clock edge. -/
def handleWrite (s : Stepper) (i : Avalon) : Stepper :=
  if i.write then
    if i.address = 0 then
      { s with numStep := s.numStep + i.writedata }
    else
      { s with stepSpeed := i.writedata }
  else
    s

/-- One rising clock edge. `s` holds the values before the edge, which every right-hand side
reads; the fields set after `w` are the assignments that override those of the write
handling. -/
def clockEdge (s : Stepper) (i : Avalon) : Stepper :=
  let w := s.handleWrite i
  if s.numStep ≠ 0 then
    if s.stepDivisor = 0 then
      if s.numStep.msb then
        { w with stepDivisor := s.stepSpeed, numStep := s.numStep + 1, curStep := s.curStep.prev }
      else
        { w with stepDivisor := s.stepSpeed, numStep := s.numStep - 1, curStep := s.curStep.next }
    else
      { w with stepDivisor := s.stepDivisor - 1 }
  else
    w

/-- The motor takes a step on the next clock edge. -/
def Steps (s : Stepper) : Prop :=
  s.numStep ≠ 0 ∧ s.stepDivisor = 0

instance (s : Stepper) : Decidable s.Steps :=
  inferInstanceAs (Decidable (s.numStep ≠ 0 ∧ s.stepDivisor = 0))

@[simp]
theorem handleWrite_curStep (s : Stepper) (i : Avalon) :
    (s.handleWrite i).curStep = s.curStep := by
  unfold handleWrite; split_ifs <;> rfl

@[simp]
theorem handleWrite_stepDivisor (s : Stepper) (i : Avalon) :
    (s.handleWrite i).stepDivisor = s.stepDivisor := by
  unfold handleWrite; split_ifs <;> rfl

/-- An edge on which the motor steps backward. -/
theorem clockEdge_of_backward {s : Stepper} (h : s.Steps) (hneg : s.numStep.msb = true)
    (i : Avalon) :
    (s.clockEdge i).curStep = s.curStep.prev ∧ (s.clockEdge i).numStep = s.numStep + 1 := by
  rw [clockEdge, if_pos h.1, if_pos h.2, if_pos hneg]
  exact ⟨rfl, rfl⟩

/-- An edge on which the motor steps forward. -/
theorem clockEdge_of_forward {s : Stepper} (h : s.Steps) (hpos : s.numStep.msb = false)
    (i : Avalon) :
    (s.clockEdge i).curStep = s.curStep.next ∧ (s.clockEdge i).numStep = s.numStep - 1 := by
  rw [clockEdge, if_pos h.1, if_pos h.2, if_neg (by simp [hpos])]
  exact ⟨rfl, rfl⟩

/-- An edge on which the motor does not step: only the write handling touches `num_step`. -/
theorem clockEdge_of_not_steps {s : Stepper} (h : ¬ s.Steps) (i : Avalon) :
    (s.clockEdge i).curStep = s.curStep ∧
      (s.clockEdge i).numStep = (s.handleWrite i).numStep := by
  by_cases hnum : s.numStep ≠ 0
  · have hdiv : s.stepDivisor ≠ 0 := fun hdiv ↦ h ⟨hnum, hdiv⟩
    rw [clockEdge, if_pos hnum, if_neg hdiv]
    exact ⟨s.handleWrite_curStep i, rfl⟩
  · rw [clockEdge, if_neg hnum]
    exact ⟨s.handleWrite_curStep i, rfl⟩

end Stepper

/-! ### The account of steps -/

/-- The word that an edge writes to address `0`, as a number of steps. -/
def Avalon.stepCount (i : Avalon) : BitVec 32 :=
  if i.write ∧ i.address = 0 then i.writedata else 0

theorem Stepper.handleWrite_numStep (s : Stepper) (i : Avalon) :
    (s.handleWrite i).numStep = s.numStep + i.stepCount := by
  unfold Stepper.handleWrite Avalon.stepCount
  by_cases hw : i.write = true
  · by_cases ha : i.address = 0
    · rw [if_pos hw, if_pos ha, if_pos ⟨hw, ha⟩]
    · rw [if_pos hw, if_neg ha, if_neg fun h ↦ ha h.2, add_zero]
  · rw [if_neg hw, if_neg fun h ↦ hw h.1, add_zero]

/-- A driver with the account of what it was told and what it did: the words written to
address `0` added up, and the phase steps seen at `cur_step` in each direction. -/
structure Account where
  stepper : Stepper
  written : BitVec 32
  forward : ℕ
  backward : ℕ

namespace Account

/-- The account of a driver at the start of a run. -/
def start (s : Stepper) : Account :=
  ⟨s, 0, 0, 0⟩

/-- One clock edge. -/
def edge (acc : Account) (i : Avalon) : Account where
  stepper := acc.stepper.clockEdge i
  written := acc.written + i.stepCount
  forward := acc.forward +
    if (acc.stepper.clockEdge i).curStep = acc.stepper.curStep.next then 1 else 0
  backward := acc.backward +
    if (acc.stepper.clockEdge i).curStep = acc.stepper.curStep.prev then 1 else 0

/-- The account after a sequence of clock edges. -/
def run (s : Stepper) (inputs : List Avalon) : Account :=
  inputs.foldl edge (start s)

/-- What was there and what was written is what is left and what was stepped, modulo `2 ^ 32`. -/
def Balanced (initial : BitVec 32) (acc : Account) : Prop :=
  initial + acc.written =
    acc.stepper.numStep + acc.forward - acc.backward

instance (initial : BitVec 32) (acc : Account) : Decidable (acc.Balanced initial) :=
  inferInstanceAs (Decidable (_ = _))

end Account

/-- The edge writes a step count in the very cycle in which the motor steps. -/
def Stepper.Collides (s : Stepper) (i : Avalon) : Prop :=
  s.Steps ∧ i.stepCount ≠ 0

namespace Account

theorem balanced_start (s : Stepper) : (start s).Balanced s.numStep := by
  simp [Balanced, start]

/-- An edge keeps a balanced account balanced exactly when no written count collides with a
step: the count is then overridden by the step. -/
theorem balanced_edge_iff {initial : BitVec 32} {acc : Account} (h : acc.Balanced initial)
    (i : Avalon) : (acc.edge i).Balanced initial ↔ ¬ acc.stepper.Collides i := by
  set s := acc.stepper with hs
  by_cases hsteps : s.Steps
  · have hlost : (acc.edge i).Balanced initial ↔ i.stepCount = 0 := by
      cases hmsb : s.numStep.msb with
      | true =>
        obtain ⟨hcur, hnum⟩ := Stepper.clockEdge_of_backward hsteps hmsb i
        simp only [Balanced, edge, ← hs, hcur, hnum, s.curStep.next_ne_prev.symm, if_true,
          if_false, Nat.add_zero, Nat.cast_add, Nat.cast_one]
        unfold Balanced at h
        rw [← hs] at h
        constructor
        · intro heq
          linear_combination heq - h
        · intro hzero
          linear_combination h + hzero
      | false =>
        obtain ⟨hcur, hnum⟩ := Stepper.clockEdge_of_forward hsteps hmsb i
        simp only [Balanced, edge, ← hs, hcur, hnum, s.curStep.next_ne_prev, if_true,
          if_false, Nat.add_zero, Nat.cast_add, Nat.cast_one]
        unfold Balanced at h
        rw [← hs] at h
        constructor
        · intro heq
          linear_combination heq - h
        · intro hzero
          linear_combination h + hzero
    rw [hlost]
    simp [Stepper.Collides, hsteps]
  · obtain ⟨hcur, hnum⟩ := Stepper.clockEdge_of_not_steps hsteps i
    have hbalanced : (acc.edge i).Balanced initial := by
      simp only [Balanced, edge, ← hs, hcur, hnum, s.curStep.ne_next, s.curStep.ne_prev,
        if_false, Nat.add_zero, Stepper.handleWrite_numStep]
      unfold Balanced at h
      rw [← hs] at h
      linear_combination h
    simp [hbalanced, Stepper.Collides, hsteps]

end Account

open LabelledRun

/-- **When no written step is lost.** From any state, the account is balanced after every prefix
of a run exactly when no edge of the run writes a non-zero count to address `0` while the motor
steps, that is, while `num_step` is non-zero and `step_divisor` is zero. -/
theorem balanced_iff_not_collides (s : Stepper) (inputs : List Avalon) :
    (∀ pre, pre <+: inputs → (Account.run s pre).Balanced s.numStep) ↔
      ∀ pre i, pre ++ [i] <+: inputs → ¬ (Account.run s pre).stepper.Collides i := by
  have hrule : StatesAlong (fun acc i acc' ↦ Account.edge acc i = acc')
      (Account.Balanced s.numStep) (.start s) inputs ↔
      StepsAlong (fun acc i acc' ↦ Account.edge acc i = acc') (fun acc i ↦ ¬ acc.stepper.Collides i)
        (.start s) inputs :=
    statesAlong_iff_stepsAlong (I := fun _ ↦ True) (Account.balanced_start s) trivial
      (by rintro acc i _ - hbal rfl; exact ⟨Account.balanced_edge_iff hbal i, fun _ ↦ trivial⟩)
  simp only [StatesAlong, StepsAlong, run_foldl_iff] at hrule
  constructor
  · intro h pre i hpre
    exact hrule.1 (fun pre acc hpre hrun ↦ hrun ▸ h pre hpre) hpre rfl rfl
  · intro h pre hpre
    exact hrule.2 (fun pre i acc _ hpre hrun _ ↦ hrun ▸ h pre i hpre) hpre rfl

/-- Steps are lost in the first cycle after power-up: the word `2` written on it is overridden
by the first step of the power-up count. -/
theorem not_balanced_of_powerUp :
    ¬ (Account.run .powerUp [⟨true, 2, 0⟩]).Balanced Stepper.powerUp.numStep := by
  decide

end MappingRobot
