import Mathlib.Logic.Function.Iterate
import MappingRobot.Stepper

/-!
# A move of the stepper

What the driver does with a count while nothing more is written: a closed form for the registers
after any number of clock edges. The first step comes when `step_divisor` has run down, and each
further one `step_speed + 1` edges after the one before. `stepsTaken` is the number of steps so
far, and `moveEdges` the number of edges after which the count is used up.

The induction is on the edges. Its invariant `Move.At` ties the edges counted to the steps taken
through `step_divisor`: the edges so far and those that the divisor still has to run down are
together those of the steps taken.
-/

namespace MappingRobot

namespace Stepper

/-- The registers after a sequence of clock edges. -/
def run (s : Stepper) (inputs : List Avalon) : Stepper :=
  inputs.foldl clockEdge s

@[simp]
theorem run_nil (s : Stepper) : s.run [] = s :=
  rfl

theorem run_append (s : Stepper) (inputs inputs' : List Avalon) :
    s.run (inputs ++ inputs') = (s.run inputs).run inputs' :=
  List.foldl_append

theorem run_concat (s : Stepper) (inputs : List Avalon) (i : Avalon) :
    s.run (inputs ++ [i]) = (s.run inputs).clockEdge i :=
  s.run_append inputs [i]

/-- The direction in which the motor steps next: forward if `num_step` is positive. -/
def direction (s : Stepper) : StepNumber → StepNumber :=
  if 0 < s.numStep.toInt then .next else .prev

/-! ### Counting towards zero -/

/-- The count one step closer to zero. -/
def towardsZero (n : BitVec 32) : BitVec 32 :=
  if 0 < n.toInt then n - 1 else n + 1

theorem toInt_ne_zero {n : BitVec 32} (h : n ≠ 0) : n.toInt ≠ 0 := by
  intro hzero
  exact h (BitVec.toInt_inj.1 (hzero.trans BitVec.toInt_zero.symm))

/-- A negative count comes one closer to zero by an addition. -/
theorem toInt_add_one {n : BitVec 32} (h : n.toInt < 0) : (n + 1).toInt = n.toInt + 1 := by
  have hlt := BitVec.le_toInt n
  rw [BitVec.toInt_add, show (1 : BitVec 32).toInt = 1 from rfl]
  exact Int.bmod_eq_of_le (by omega) (by omega)

/-- A positive count comes one closer to zero by a subtraction. -/
theorem toInt_sub_one {n : BitVec 32} (h : 0 < n.toInt) : (n - 1).toInt = n.toInt - 1 := by
  have hlt := BitVec.toInt_lt (x := n)
  rw [BitVec.toInt_sub, show (1 : BitVec 32).toInt = 1 from rfl]
  exact Int.bmod_eq_of_le (by omega) (by omega)

theorem toInt_towardsZero {n : BitVec 32} (h : n ≠ 0) :
    (towardsZero n).toInt = if 0 < n.toInt then n.toInt - 1 else n.toInt + 1 := by
  have hne := toInt_ne_zero h
  unfold towardsZero
  split_ifs with hpos
  · exact toInt_sub_one hpos
  · exact toInt_add_one (by omega)

theorem toNat_sub_one {n : BitVec 32} (h : n ≠ 0) : (n - 1).toNat + 1 = n.toNat := by
  have hne : n.toNat ≠ 0 := fun hzero ↦ h (BitVec.toNat_inj.1 hzero)
  rw [BitVec.toNat_sub_of_le (by rw [BitVec.le_def]; show 1 ≤ n.toNat; omega)]
  show n.toNat - 1 + 1 = n.toNat
  omega

/-! ### One edge without a write -/

theorem clockEdge_of_idle (s : Stepper) {i : Avalon} (hidle : i.write = false) :
    s.clockEdge i =
      if s.numStep = 0 then s
      else if s.stepDivisor ≠ 0 then { s with stepDivisor := s.stepDivisor - 1 }
      else
        { s with
          stepDivisor := s.stepSpeed
          numStep := towardsZero s.numStep
          curStep := s.direction s.curStep } := by
  have hwrite : s.handleWrite i = s := by simp [handleWrite, hidle]
  by_cases hnum : s.numStep = 0
  · rw [clockEdge, hwrite, if_neg (not_not.2 hnum), if_pos hnum]
  by_cases hdiv : s.stepDivisor = 0
  · rw [clockEdge, hwrite, if_pos hnum, if_pos hdiv, if_neg hnum, if_neg (not_not.2 hdiv)]
    cases hmsb : s.numStep.msb with
    | true =>
      have hneg : ¬ 0 < s.numStep.toInt := by
        have := BitVec.toInt_neg_iff.2 (BitVec.msb_eq_true_iff_two_mul_ge.1 hmsb)
        omega
      simp [direction, towardsZero, hneg]
    | false =>
      have hnonneg : 0 ≤ s.numStep.toInt :=
        BitVec.toInt_pos_iff.2 (BitVec.msb_eq_false_iff_two_mul_lt.1 hmsb)
      have hpos : 0 < s.numStep.toInt := lt_of_le_of_ne hnonneg (toInt_ne_zero hnum).symm
      simp [direction, towardsZero, hpos]
  · rw [clockEdge, hwrite, if_pos hnum, if_neg hdiv, if_neg hnum, if_pos hdiv]

/-! ### The closed form -/

/-- The number of edges that use up the count. -/
def moveEdges (s : Stepper) : ℕ :=
  (s.stepDivisor.toNat + 1) + (s.numStep.toInt.natAbs - 1) * (s.stepSpeed.toNat + 1)

/-- The number of steps taken in the first `edges` edges. -/
def stepsTaken (s : Stepper) (edges : ℕ) : ℕ :=
  min s.numStep.toInt.natAbs
    ((edges + s.stepSpeed.toNat - s.stepDivisor.toNat) / (s.stepSpeed.toNat + 1))

/-- Each step but the first takes `step_speed + 1` edges. -/
theorem moveEdges_add {s : Stepper} (h : 1 ≤ s.numStep.toInt.natAbs) :
    s.moveEdges + s.stepSpeed.toNat =
      s.stepDivisor.toNat + s.numStep.toInt.natAbs * (s.stepSpeed.toNat + 1) := by
  obtain ⟨n, hn⟩ := Nat.exists_eq_add_of_le' h
  rw [moveEdges, hn, Nat.add_one_mul, Nat.add_sub_cancel]
  omega

/-- The registers of a move that began in `s`, after `edges` edges that have taken `taken` steps. -/
structure MoveAt (s : Stepper) (edges taken : ℕ) (t : Stepper) : Prop where
  taken_le : taken ≤ s.numStep.toInt.natAbs
  curStep : t.curStep = s.direction^[taken] s.curStep
  stepSpeed : t.stepSpeed = s.stepSpeed
  numStep : t.numStep.toInt =
    if 0 < s.numStep.toInt then s.numStep.toInt - taken else s.numStep.toInt + taken
  /-- The edges so far, and those that the divisor has to run down before the next step. -/
  edges_add : taken < s.numStep.toInt.natAbs →
    edges + t.stepDivisor.toNat = s.stepDivisor.toNat + taken * (s.stepSpeed.toNat + 1)
  divisor_le : 0 < taken → t.stepDivisor.toNat ≤ s.stepSpeed.toNat
  done : taken = s.numStep.toInt.natAbs →
    t.stepDivisor = s.stepSpeed ∧ s.moveEdges ≤ edges

section

variable {s t : Stepper} {edges taken : ℕ}

theorem moveAt_start (hn : s.numStep ≠ 0) : s.MoveAt 0 0 s where
  taken_le := Nat.zero_le _
  curStep := rfl
  stepSpeed := rfl
  numStep := by simp
  edges_add _ := by omega
  divisor_le h := absurd h (lt_irrefl _)
  done h := absurd h.symm (Int.natAbs_ne_zero.2 (toInt_ne_zero hn))

/-- The number of steps that the invariant speaks of is the one of the closed form. -/
theorem MoveAt.taken_eq (h : s.MoveAt edges taken t) : taken = s.stepsTaken edges := by
  rcases h.taken_le.lt_or_eq with hlt | heq
  · have hedges := h.edges_add hlt
    have hquot : (edges + s.stepSpeed.toNat - s.stepDivisor.toNat) / (s.stepSpeed.toNat + 1) =
        taken := by
      rcases Nat.eq_zero_or_pos taken with rfl | hpos
      · exact Nat.div_eq_of_lt (by omega)
      · have hle := h.divisor_le hpos
        refine Nat.div_eq_of_lt_le ?_ ?_
        · omega
        · rw [Nat.add_one_mul]
          omega
    rw [stepsTaken, hquot, Nat.min_eq_right h.taken_le]
  · have hmove := (h.done heq).2
    have hone : 1 ≤ s.numStep.toInt.natAbs ∨ s.numStep.toInt.natAbs = 0 := by omega
    rcases hone with hone | hzero
    · have hmul := moveEdges_add hone
      rw [stepsTaken, Nat.min_eq_left, heq]
      refine (Nat.le_div_iff_mul_le (Nat.add_one_pos _)).2 ?_
      omega
    · rw [stepsTaken, hzero, Nat.zero_min, heq, hzero]

/-- As long as steps are left the count has its sign. -/
theorem MoveAt.numStep_ne_zero_iff (h : s.MoveAt edges taken t) :
    t.numStep ≠ 0 ↔ taken < s.numStep.toInt.natAbs := by
  have hle := h.taken_le
  have hnum := h.numStep
  constructor
  · intro hne
    have := toInt_ne_zero hne
    split_ifs at hnum <;> omega
  · intro hlt hzero
    rw [hzero, show BitVec.toInt (0 : BitVec 32) = 0 from rfl] at hnum
    split_ifs at hnum <;> omega

/-- While steps are left the direction stays. -/
theorem MoveAt.direction_eq (h : s.MoveAt edges taken t) (hlt : taken < s.numStep.toInt.natAbs) :
    (0 < t.numStep.toInt ↔ 0 < s.numStep.toInt) ∧ t.direction = s.direction := by
  have hnum := h.numStep
  have hiff : 0 < t.numStep.toInt ↔ 0 < s.numStep.toInt := by
    split_ifs at hnum <;> omega
  exact ⟨hiff, by simp only [direction, hiff]⟩

/-- **One edge of a move** runs the divisor down, or takes a step, or changes nothing any more. -/
theorem MoveAt.clockEdge (h : s.MoveAt edges taken t) {i : Avalon} (hidle : i.write = false) :
    ∃ taken', (taken' = taken ∨ taken' = taken + 1) ∧
      s.MoveAt (edges + 1) taken' (t.clockEdge i) := by
  rw [t.clockEdge_of_idle hidle]
  split_ifs with hzero hdiv
  · have hdone : taken = s.numStep.toInt.natAbs :=
      le_antisymm h.taken_le (not_lt.1 fun hlt ↦ h.numStep_ne_zero_iff.2 hlt hzero)
    refine ⟨taken, Or.inl rfl, h.taken_le, h.curStep, h.stepSpeed, h.numStep,
      fun hlt ↦ absurd hdone hlt.ne, h.divisor_le, fun _ ↦ ?_⟩
    exact ⟨(h.done hdone).1, (h.done hdone).2.trans (Nat.le_succ _)⟩
  · have hlt := h.numStep_ne_zero_iff.1 hzero
    have hpred := toNat_sub_one hdiv
    have hedges := h.edges_add hlt
    refine ⟨taken, Or.inl rfl, h.taken_le, h.curStep, h.stepSpeed, h.numStep, fun _ ↦ ?_,
      fun hpos ↦ ?_, fun hdone ↦ absurd hdone hlt.ne⟩
    · show edges + 1 + (t.stepDivisor - 1).toNat = _
      omega
    · have := h.divisor_le hpos
      show (t.stepDivisor - 1).toNat ≤ _
      omega
  · have hlt := h.numStep_ne_zero_iff.1 hzero
    obtain ⟨hsign, hdir⟩ := h.direction_eq hlt
    have hedges := h.edges_add hlt
    rw [not_not.1 hdiv, show (0 : BitVec 32).toNat = 0 from rfl] at hedges
    have hnum := h.numStep
    refine ⟨taken + 1, Or.inr rfl, hlt, ?_, h.stepSpeed, ?_, fun _ ↦ ?_, fun _ ↦ ?_, fun hdone ↦ ?_⟩
    · show t.direction t.curStep = _
      rw [hdir, h.curStep, Function.iterate_succ_apply']
    · show (towardsZero t.numStep).toInt = _
      rw [toInt_towardsZero hzero]
      simp only [hsign] at hnum ⊢
      split_ifs at hnum ⊢ <;> push_cast <;> omega
    · show edges + 1 + t.stepSpeed.toNat = _
      rw [h.stepSpeed, Nat.add_one_mul]
      omega
    · show t.stepSpeed.toNat ≤ _
      rw [h.stepSpeed]
    · refine ⟨h.stepSpeed, ?_⟩
      have htaken : s.numStep.toInt.natAbs - 1 = taken := by omega
      rw [moveEdges, htaken]
      omega

/-- The invariant along a run without writes. -/
theorem moveAt_run (hn : s.numStep ≠ 0) {inputs : List Avalon}
    (hidle : ∀ i ∈ inputs, i.write = false) :
    s.MoveAt inputs.length (s.stepsTaken inputs.length) (s.run inputs) := by
  induction inputs using List.reverseRecOn with
  | nil =>
    have hstart := moveAt_start hn
    exact hstart.taken_eq ▸ hstart
  | append_singleton inputs i ih =>
    have hbefore := ih fun j hj ↦ hidle j (List.mem_append_left _ hj)
    obtain ⟨taken', -, hafter⟩ := hbefore.clockEdge (hidle i (by simp))
    rw [run_concat, List.length_append, List.length_singleton]
    exact hafter.taken_eq ▸ hafter

end

/-- All steps have been taken exactly after `moveEdges` edges. -/
theorem stepsTaken_lt_iff {s : Stepper} (hn : s.numStep ≠ 0) (edges : ℕ) :
    s.stepsTaken edges < s.numStep.toInt.natAbs ↔ edges < s.moveEdges := by
  have hpos : 0 < s.numStep.toInt.natAbs := Int.natAbs_pos.2 (toInt_ne_zero hn)
  have hmul := moveEdges_add hpos
  have hle := Nat.le_mul_of_pos_left (s.stepSpeed.toNat + 1) hpos
  rw [stepsTaken, min_lt_iff, Nat.div_lt_iff_lt_mul (Nat.add_one_pos _)]
  constructor
  · rintro (hlt | hlt)
    · exact absurd hlt (lt_irrefl _)
    · omega
  · intro hlt
    exact Or.inr (by omega)

/-- **The closed form of a move.** With a count in `num_step` and no further writes, the count is
used up after `(step_divisor + 1) + (|num_step| - 1) * (step_speed + 1)` edges and not before. After
any number of edges the phase has moved by the steps taken so far, all of them forward if the count
was positive and all of them backward if it was negative, an edge taking one step or none; and
once the count is used up nothing changes. -/
theorem move_closedForm (s : Stepper) (hn : s.numStep ≠ 0) {inputs : List Avalon}
    (hidle : ∀ i ∈ inputs, i.write = false) :
    ((s.run inputs).numStep = 0 ↔
        (s.stepDivisor.toNat + 1) + (s.numStep.toInt.natAbs - 1) * (s.stepSpeed.toNat + 1) ≤
          inputs.length) ∧
      (s.run inputs).curStep =
        (if 0 < s.numStep.toInt then StepNumber.next else .prev)^[s.stepsTaken inputs.length]
          s.curStep ∧
      s.stepsTaken 0 = 0 ∧
      (∀ edges, s.stepsTaken (edges + 1) = s.stepsTaken edges ∨
        s.stepsTaken (edges + 1) = s.stepsTaken edges + 1) ∧
      ((s.run inputs).numStep = 0 →
        s.stepsTaken inputs.length = s.numStep.toInt.natAbs ∧
          (s.run inputs).stepDivisor = s.stepSpeed ∧
          ∀ i, i.write = false → (s.run inputs).clockEdge i = s.run inputs) := by
  have hat := moveAt_run hn hidle
  have hzero_iff : (s.run inputs).numStep = 0 ↔ s.moveEdges ≤ inputs.length := by
    rw [← not_lt, ← stepsTaken_lt_iff hn, ← hat.numStep_ne_zero_iff, not_not]
  refine ⟨hzero_iff, ?_, (moveAt_start hn).taken_eq.symm, fun edges ↦ ?_,
    fun hzero ↦ ⟨?_, ?_, fun i hi ↦ ?_⟩⟩
  · rw [hat.curStep, direction]
  · have hidle' : ∀ i ∈ List.replicate edges (⟨false, 0, 0⟩ : Avalon), i.write = false :=
      fun i hi ↦ by rw [List.eq_of_mem_replicate hi]
    have hbefore := moveAt_run hn hidle'
    rw [List.length_replicate] at hbefore
    obtain ⟨taken', htaken, hafter⟩ := hbefore.clockEdge (i := ⟨false, 0, 0⟩) rfl
    rwa [← hafter.taken_eq]
  · exact le_antisymm hat.taken_le
      (not_lt.1 fun hlt ↦ hat.numStep_ne_zero_iff.2 hlt hzero)
  · exact (hat.done (le_antisymm hat.taken_le
      (not_lt.1 fun hlt ↦ hat.numStep_ne_zero_iff.2 hlt hzero))).1
  · rw [clockEdge_of_idle _ hi, if_pos hzero]

/-- The extreme negative count, a step on every edge: it is used up after `2 ^ 31` edges. -/
theorem move_closedForm_extreme :
    ((⟨.a, 0, 0x80000000, 0⟩ : Stepper).run
      (List.replicate (2 ^ 31) ⟨false, 0, 0⟩)).numStep = 0 := by
  refine (move_closedForm ⟨.a, 0, 0x80000000, 0⟩ (by decide)
    fun i hi ↦ by rw [List.eq_of_mem_replicate hi]).1.2 ?_
  rw [List.length_replicate]
  decide

end Stepper

end MappingRobot
