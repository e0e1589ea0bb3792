import MappingRobot.Footprint
import MappingRobot.Library.Alternation
import MappingRobot.Library.Run

/-!
# The sweep of the range finder

`task1` ends each of its iterations with a word to the stepper driver: `+2` until `steps` has run
out, then `-2`, and so on. `if(!steps--)` looks at `steps` before it is decreased, and the word of
an iteration is written before that. Both the iteration that sees `totalSteps` and the one that
sees `0` therefore belong to the sweep, which has `totalSteps + 1` words.

The loop is taken by itself here, with any number for `totalSteps`: `sweepRun_eq` is its closed
form. `Sys.Sweeping` ties it to the system, where the other tasks come in between.
-/

namespace MappingRobot

open Alternation LabelledRun

/-! ### The loop -/

/-- `steps` and `direction` of `task1`. -/
structure Sweep where
  steps : ℤ
  direction : ℤ
deriving DecidableEq

/-- The values before the loop. -/
def Sweep.start (totalSteps : ℤ) : Sweep :=
  ⟨totalSteps, 2⟩

/-- The end of an iteration: the word written to the stepper driver, and what `if(!steps--)`
makes of the variables. -/
def Sweep.rotate (totalSteps : ℤ) (w : Sweep) : BitVec 32 × Sweep :=
  let word := BitVec.ofInt 32 w.direction
  let tested := w.steps
  let steps := w.steps - 1
  if tested = 0 then
    (word, ⟨totalSteps, -w.direction⟩)
  else
    (word, ⟨steps, w.direction⟩)

/-- Each variable by itself. -/
theorem Sweep.rotate_eq (totalSteps : ℤ) (w : Sweep) :
    w.rotate totalSteps = (BitVec.ofInt 32 w.direction,
      { steps := if w.steps = 0 then totalSteps else w.steps - 1
        direction := if w.steps = 0 then -w.direction else w.direction }) := by
  simp only [rotate]
  split_ifs <;> rfl

/-- The words written in the first `n` iterations, and the variables after them. -/
def sweepRun (totalSteps : ℤ) : ℕ → List (BitVec 32) × Sweep
  | 0 => ([], .start totalSteps)
  | n + 1 =>
    let before := sweepRun totalSteps n
    let after := before.2.rotate totalSteps
    (before.1 ++ [after.1], after.2)

/-- How far the words have turned the stepper. -/
def displacement (words : List (BitVec 32)) : ℤ :=
  (words.map BitVec.toInt).sum

/-! ### What the loop does -/

/-- The variables after `n` iterations. -/
def Sweep.after (total n : ℕ) : Sweep :=
  ⟨total - (n % (total + 1) : ℕ), heading (total + 1) 2 n⟩

/-- One iteration: `steps` is `0` exactly in the last one of a sweep. -/
theorem rotate_after (total n : ℕ) :
    (Sweep.after total n).rotate total =
      (heading (total + 1) 2#32 n, Sweep.after total (n + 1)) := by
  have hword : BitVec.ofInt 32 (heading (total + 1) 2 n) = heading (total + 1) 2#32 n :=
    map_heading (by decide) n
  have hlen : 0 < total + 1 := total.succ_pos
  simp only [Sweep.rotate_eq, Sweep.after, hword, heading_succ hlen]
  rcases succ_div_mod hlen n with ⟨hlt, -, hmod⟩ | ⟨hend, -, hmod⟩
  · rw [if_neg (by omega), if_neg (by omega), if_neg hlt.ne, hmod]
    congr 2
    omega
  · rw [if_pos (by omega), if_pos (by omega), if_pos hend, hmod]
    simp

/-- **The loop in closed form**: sweeps of `totalSteps + 1` equal words, forth and back in
turn. -/
theorem sweepRun_eq (total n : ℕ) :
    sweepRun total n = (alternating (total + 1) 2#32 n, Sweep.after total n) := by
  induction n with
  | zero => simp [sweepRun, alternating, Sweep.start, Sweep.after, heading]
  | succ n ih => rw [sweepRun, ih, rotate_after, alternating_succ]

/-- Sweeps of `len` words turn the stepper by twice the distance, and do not drift. -/
theorem displacement_alternating {len : ℕ} (hlen : 0 < len) (n : ℕ) :
    displacement (alternating len 2#32 n) = 2 * zigzag len n := by
  rw [displacement, map_alternating (by decide), sum_alternating hlen, nsmul_eq_mul, mul_comm]
  rfl

/-! ### Sweeps of `totalSteps` words -/

/-- The first `n` iterations write sweeps of `total` equal words, which lead from `0` to
`2 * total` and back. -/
structure KeepsSweeps (total n : ℕ) : Prop where
  words : (sweepRun total n).1 = alternating total 2#32 n
  nonneg : 0 ≤ displacement (sweepRun total n).1
  le : displacement (sweepRun total n).1 ≤ 2 * total
  home : 2 * total ∣ n → displacement (sweepRun total n).1 = 0

/-- Walks that turn after different numbers of steps part where the first one turns. -/
theorem alternating_succ_ne {total n : ℕ} (htotal : 1 ≤ total) (h : total < n) :
    alternating (total + 1) 2#32 n ≠ alternating total 2#32 n := by
  intro heq
  have hword : (alternating (total + 1) 2#32 n)[total]? = (alternating total 2#32 n)[total]? := by
    rw [heq]
  rw [getElem?_alternating h, getElem?_alternating h, heading_of_lt total.lt_succ_self,
    heading_self htotal] at hword
  exact absurd hword (by decide)

/-- The sweeps have `totalSteps` words until the first one should have ended. -/
theorem keepsSweeps_iff (total n : ℕ) (htotal : 1 ≤ total) :
    KeepsSweeps total n ↔ n ≤ total := by
  constructor
  · intro h
    by_contra hlater
    have hwords := h.words
    rw [sweepRun_eq] at hwords
    exact alternating_succ_ne htotal (Nat.lt_of_not_le hlater) hwords
  · intro h
    have hstraight : (sweepRun total n).1 = List.replicate n 2#32 := by
      rw [sweepRun_eq, alternating_of_le (h.trans total.le_succ)]
    have hdisplacement : displacement (sweepRun total n).1 = 2 * n := by
      rw [hstraight, displacement, List.map_replicate, List.sum_replicate, nsmul_eq_mul, mul_comm]
      rfl
    refine ⟨?_, ?_, ?_, fun hdvd ↦ ?_⟩
    · rw [hstraight, alternating_of_le h]
    · omega
    · omega
    · have : n = 0 := Nat.eq_zero_of_dvd_of_lt hdvd (by omega)
      rw [hdisplacement, this]
      rfl

theorem keepsSweeps_ninety : 1 ≤ 90 ∧ KeepsSweeps 90 90 :=
  ⟨by decide, (keepsSweeps_iff 90 90 (by decide)).2 le_rfl⟩

/-- The word that should have been the first one back leads on. -/
theorem not_keepsSweeps_ninety_one :
    displacement (sweepRun 90 91).1 = 182 ∧ ¬ KeepsSweeps 90 91 := by
  have hdisplacement : displacement (sweepRun 90 91).1 = 182 := by
    rw [show (90 : ℤ) = (90 : ℕ) from rfl, sweepRun_eq, displacement_alternating (by decide)]
    decide
  refine ⟨hdisplacement, fun h ↦ ?_⟩
  have hle : displacement (sweepRun 90 91).1 ≤ 2 * 90 := h.le
  omega

/-! ### The system -/

section

variable {σ : Type} {S : Slave σ} {s t : Sys σ}

/-- The variables of the sweep. -/
def Sys.sweep (s : Sys σ) : Sweep :=
  ⟨s.steps, s.direction⟩

/-- The sweep is the same. -/
structure Sys.SameSweep (s t : Sys σ) : Prop where
  sweep : t.sweep = s.sweep
  stepper : t.log.stepper = s.log.stepper

/-- The end of an iteration of `task1`. -/
structure Sys.Rotates (s t : Sys σ) : Prop where
  sweep : t.sweep = (s.sweep.rotate totalSteps).2
  stepper : t.log.stepper = s.log.stepper ++ [(s.sweep.rotate totalSteps).1]

/-- The words written to the stepper driver and the variables are those of a number of
iterations. -/
def Sys.Sweeping (s : Sys σ) : Prop :=
  sweepRun totalSteps s.log.stepper.length = (s.log.stepper, s.sweep)

theorem Sys.Sweeping.of_same (h : s.Sweeping) (hsame : s.SameSweep t) : t.Sweeping := by
  rw [Sys.Sweeping, hsame.stepper, hsame.sweep]
  exact h

theorem Sys.Sweeping.rotate (h : s.Sweeping) (hrotates : s.Rotates t) : t.Sweeping := by
  rw [Sys.Sweeping, hrotates.stepper, hrotates.sweep, List.length_append, List.length_singleton,
    sweepRun, show sweepRun totalSteps s.log.stepper.length = _ from h]

theorem receiveTaskStep_sameSweep {mallocOk : Bool} {pc : ReceivePc}
    (h : receiveTaskStep mallocOk s pc = some t) : s.SameSweep t := by
  rw [(receiveTaskStep_frame h).1]
  exact ⟨rfl, rfl⟩

theorem sendTaskStep_sameSweep {pc : SendPc} (h : sendTaskStep s pc = some t) :
    s.SameSweep t := by
  rw [sendTaskStep_frame h]
  exact ⟨rfl, rfl⟩

theorem task2Step_sameSweep {pc : Task2Pc} (h : task2Step s pc = some t) : s.SameSweep t := by
  rw [(task2Step_frame h).1]
  exact ⟨rfl, rfl⟩

/-- `task1` leaves the sweep alone up to the end of the iteration. -/
theorem task1Step_sweep {mallocOk : Bool} {pc : Task1Pc}
    (h : task1Step S mallocOk s pc = some t) : s.SameSweep t ∨ s.Rotates t := by
  rcases eq_or_ne pc .rotate with rfl | hpc
  · obtain rfl := Option.some.inj h
    refine Or.inr ⟨?_, ?_⟩ <;> rw [Sweep.rotate_eq] <;> rfl
  · obtain ⟨-, -, -, hlocal⟩ := task1Step_frame h
    obtain ⟨hsteps, hdirection, hstepper⟩ := hlocal hpc
    exact Or.inl ⟨by rw [Sys.sweep, hsteps, hdirection, Sys.sweep], hstepper⟩

/-- **One step** leaves the sweep alone or is the end of an iteration of `task1`. -/
theorem Step.sweep {e : Event} (h : Step S s e t) : s.SameSweep t ∨ s.Rotates t := by
  have hundefined : s.SameSweep { s with undefined := true } := ⟨rfl, rfl⟩
  cases e with
  | irq byte =>
    obtain rfl := h.irq
    unfold bluetoothIrq
    split_ifs <;> exact Or.inl ⟨rfl, rfl⟩
  | receiveTask mallocOk =>
    rcases h.receiveTask with ⟨m, -, rfl⟩ | ⟨pc, -, rfl⟩
    · exact Or.inl ⟨rfl, rfl⟩
    · exact Or.inl (Sys.of_orUndefined hundefined fun _ ↦ receiveTaskStep_sameSweep)
  | sendTask =>
    rcases h.sendTask with ⟨p, -, rfl⟩ | ⟨pc, -, rfl⟩
    · exact Or.inl ⟨rfl, rfl⟩
    · exact Or.inl (Sys.of_orUndefined hundefined fun _ ↦ sendTaskStep_sameSweep)
  | task2 =>
    rcases h.task2 with ⟨-, rfl⟩ | ⟨p, -, rfl⟩ | ⟨pc, -, rfl⟩
    · exact Or.inl ⟨rfl, rfl⟩
    · exact Or.inl ⟨rfl, rfl⟩
    · exact Or.inl (Sys.of_orUndefined hundefined fun _ ↦ task2Step_sameSweep)
  | task1 mallocOk =>
    obtain ⟨-, rfl⟩ := h.task1
    exact Sys.of_orUndefined (P := fun t ↦ s.SameSweep t ∨ s.Rotates t) (Or.inl hundefined)
      fun _ ↦ task1Step_sweep
  | timeout =>
    obtain ⟨-, rfl⟩ := h.timeout
    exact Or.inl ⟨rfl, rfl⟩
  | wake =>
    obtain ⟨-, rfl⟩ := h.wake
    exact Or.inl ⟨rfl, rfl⟩

/-- Whatever comes in between, the words written are those of the loop. -/
theorem sweeping_of_run {slave : σ} {events : List Event}
    (hrun : Run (Step S) (.init slave) events s) : s.Sweeping := by
  refine hrun.invariant (I := Sys.Sweeping) rfl fun t e u h hstep ↦ ?_
  rcases hstep.sweep with hsame | hrotates
  · exact h.of_same hsame
  · exact h.rotate hrotates

/-- **The range finder does not drift**: in every run it is turned in sweeps of
`totalSteps + 1` words, stays between its first direction and the end of a sweep, and is back in
its first direction after every second sweep. -/
theorem stepper_of_run {slave : σ} {events : List Event}
    (hrun : Run (Step S) (.init slave) events s) :
    s.log.stepper = alternating (totalSteps.toNat + 1) 2#32 s.log.stepper.length ∧
      0 ≤ displacement s.log.stepper ∧
      displacement s.log.stepper ≤ 2 * (totalSteps + 1) ∧
      (2 * (totalSteps.toNat + 1) ∣ s.log.stepper.length → displacement s.log.stepper = 0) := by
  have htotal : (totalSteps.toNat : ℤ) = totalSteps := rfl
  have hlen : 0 < totalSteps.toNat + 1 := Nat.succ_pos _
  have hwords :
      s.log.stepper = alternating (totalSteps.toNat + 1) 2#32 s.log.stepper.length := by
    have hsweeping : sweepRun totalSteps s.log.stepper.length = _ := sweeping_of_run hrun
    rw [← htotal, sweepRun_eq] at hsweeping
    exact (congrArg Prod.fst hsweeping).symm
  have hdisplacement : displacement s.log.stepper =
      2 * zigzag (totalSteps.toNat + 1) s.log.stepper.length := by
    rw [← displacement_alternating hlen, ← hwords]
  have hle := zigzag_le hlen s.log.stepper.length
  refine ⟨hwords, by omega, by omega, fun hdvd ↦ ?_⟩
  rw [hdisplacement, zigzag_of_dvd hdvd]
  rfl

end

end MappingRobot
