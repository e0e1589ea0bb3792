import MappingRobot.Stepper.Move

/-!
# Rate and phases of the stepper

What holds of the motor whatever is written to the driver, and when. A step reloads
`step_divisor` with the speed of that moment, and nothing but the count down towards the next
step touches the divisor after that: so the spacing of two steps is settled by the first of them,
and no write can shorten it (`stepDivisor_run_le`).

The coils follow `cur_step` through the table of `stepper_driver.vhd`. A step in either direction
switches one winding on or off and leaves the other alone, so that a winding is never reversed
while it is on.
-/

namespace MappingRobot

/-! ### The coils -/

/-- The signals that drive one winding, `coila` and `coila_enable` or `coilb` and
`coilb_enable`. -/
structure Coil where
  polarity : Bool
  enable : Bool
deriving DecidableEq

/-- A winding of the motor. -/
inductive Winding
  | a
  | b
deriving DecidableEq

/-- The outputs for one winding: `c_ena`, `c_ain1` and `c_ain2`, or those of the other one. -/
structure WindingOutput where
  en : Bool
  in1 : Bool
  in2 : Bool
deriving DecidableEq

namespace StepNumber

/-- `process (cur_step)`: the signals for `coila`. -/
def coila : StepNumber → Coil
  | a => ⟨false, true⟩
  | b => ⟨false, true⟩
  | c => ⟨false, false⟩
  | d => ⟨true, true⟩
  | e => ⟨true, true⟩
  | f => ⟨true, true⟩
  | g => ⟨false, false⟩
  | h => ⟨false, true⟩

/-- `process (cur_step)`: the signals for `coilb`. -/
def coilb : StepNumber → Coil
  | a => ⟨false, false⟩
  | b => ⟨false, true⟩
  | c => ⟨false, true⟩
  | d => ⟨false, true⟩
  | e => ⟨false, false⟩
  | f => ⟨true, true⟩
  | g => ⟨true, true⟩
  | h => ⟨true, true⟩

end StepNumber

/-- The enable is passed on, and the polarity goes to a pair of opposite levels. -/
def Coil.output (coil : Coil) : WindingOutput where
  en := coil.enable
  in1 := if coil.polarity = false then true else false
  in2 := if coil.polarity = false then false else true

/-- The outputs of the driver for a winding. -/
def StepNumber.output (p : StepNumber) : Winding → WindingOutput
  | .a => p.coila.output
  | .b => p.coilb.output

/-- From one output to the other the winding has been reversed: it is on in both, with opposite
polarities. -/
def WindingOutput.Reversed (o o' : WindingOutput) : Prop :=
  o.en = true ∧ o'.en = true ∧ (o.in1, o.in2) ≠ (o'.in1, o'.in2)

instance (o o' : WindingOutput) : Decidable (o.Reversed o') :=
  inferInstanceAs (Decidable (_ ∧ _ ∧ _))

namespace StepNumber

/-- A step in either direction changes the outputs of at most one winding. -/
theorem output_a_or_b (p q : StepNumber) (h : q = p ∨ q = p.next ∨ q = p.prev) :
    q.output .a = p.output .a ∨ q.output .b = p.output .b := by
  rcases h with h | h | h
  · exact Or.inl (by rw [h])
  · rw [h]
    cases p <;> decide
  · rw [h]
    cases p <;> decide

/-- A step in either direction reverses no winding. -/
theorem not_reversed (p q : StepNumber) (h : q = p ∨ q = p.next ∨ q = p.prev) (w : Winding) :
    ¬ (p.output w).Reversed (q.output w) := by
  rcases h with h | h | h
  · rw [h]
    exact fun hrev ↦ hrev.2.2 rfl
  · rw [h]
    cases p <;> cases w <;> decide
  · rw [h]
    cases p <;> cases w <;> decide

end StepNumber

namespace Stepper

/-! ### One edge -/

/-- The phase changes on the edges on which the motor steps, by one in the direction of the
count, and the divisor is loaded with the speed. -/
theorem clockEdge_of_steps {s : Stepper} (h : s.Steps) (i : Avalon) :
    (s.clockEdge i).curStep = s.direction s.curStep ∧
      (s.clockEdge i).stepDivisor = s.stepSpeed := by
  have hidle := s.clockEdge_of_idle (i := ⟨false, 0, 0⟩) rfl
  rw [if_neg h.1, if_neg (not_not.2 h.2)] at hidle
  rw [clockEdge, if_pos h.1, if_pos h.2] at hidle ⊢
  split_ifs at hidle ⊢
  · exact ⟨congrArg curStep hidle, rfl⟩
  · exact ⟨congrArg curStep hidle, rfl⟩

/-- Off a step the divisor goes down by one at most. -/
theorem stepDivisor_clockEdge_of_not_steps {s : Stepper} (h : ¬ s.Steps) (i : Avalon) :
    s.stepDivisor.toNat ≤ (s.clockEdge i).stepDivisor.toNat + 1 := by
  by_cases hnum : s.numStep ≠ 0
  · have hdiv : s.stepDivisor ≠ 0 := fun hdiv ↦ h ⟨hnum, hdiv⟩
    rw [clockEdge, if_pos hnum, if_neg hdiv]
    exact (toNat_sub_one hdiv).ge
  · rw [clockEdge, if_neg hnum, handleWrite_stepDivisor]
    exact Nat.le_succ _

theorem curStep_clockEdge (s : Stepper) (i : Avalon) :
    (s.clockEdge i).curStep = s.curStep ∨ (s.clockEdge i).curStep = s.curStep.next ∨
      (s.clockEdge i).curStep = s.curStep.prev := by
  by_cases hsteps : s.Steps
  · rw [(clockEdge_of_steps hsteps i).1, direction]
    split_ifs <;> simp
  · exact Or.inl (clockEdge_of_not_steps hsteps i).1

/-- The phase changes only when the motor steps. -/
theorem steps_of_curStep_ne {s : Stepper} {i : Avalon}
    (h : (s.clockEdge i).curStep ≠ s.curStep) : s.Steps := by
  by_contra hsteps
  exact h (clockEdge_of_not_steps hsteps i).1

/-! ### Whole runs -/

/-- Until the divisor has run down there is no step, whatever is written. -/
theorem stepDivisor_run_le (s : Stepper) {inputs : List Avalon}
    (hlen : inputs.length ≤ s.stepDivisor.toNat) :
    s.stepDivisor.toNat ≤ (s.run inputs).stepDivisor.toNat + inputs.length := by
  induction inputs using List.reverseRecOn with
  | nil => simp
  | append_singleton inputs i ih =>
    rw [List.length_append, List.length_singleton] at hlen ⊢
    have hbefore := ih (by omega)
    have hsteps : ¬ (s.run inputs).Steps := by
      intro hsteps
      rw [hsteps.2, show (0 : BitVec 32).toNat = 0 from rfl] at hbefore
      omega
    have hedge := stepDivisor_clockEdge_of_not_steps hsteps i
    rw [run_concat]
    omega

/-- Two outputs of a winding that is on in both, with opposite polarities, have one between them
in which it is off. -/
theorem exists_off_of_reversed (s : Stepper) (w : Winding) (inputs : List Avalon)
    (h : (s.curStep.output w).Reversed ((s.run inputs).curStep.output w)) :
    ∃ mid, mid <+: inputs ∧ ((s.run mid).curStep.output w).en = false := by
  by_contra hnone
  have hon : ∀ mid, mid <+: inputs → ((s.run mid).curStep.output w).en = true := by
    intro mid hmid
    by_contra hoff
    exact hnone ⟨mid, hmid, Bool.eq_false_iff.2 hoff⟩
  -- while it is on, every single edge leaves its polarity alone
  have hsame : ∀ mid, mid <+: inputs →
      ((s.run mid).curStep.output w).in1 = (s.curStep.output w).in1 ∧
        ((s.run mid).curStep.output w).in2 = (s.curStep.output w).in2 := by
    intro mid hmid
    induction mid using List.reverseRecOn with
    | nil => exact ⟨rfl, rfl⟩
    | append_singleton mid i ih =>
      have hpre : mid <+: inputs := (List.prefix_append _ _).trans hmid
      have hnot := (s.run mid).curStep.not_reversed _ ((s.run mid).curStep_clockEdge i) w
      have hbefore := hon mid hpre
      have hafter := hon (mid ++ [i]) hmid
      obtain ⟨hin1, hin2⟩ := ih hpre
      rw [run_concat] at hafter ⊢
      rw [← hin1, ← hin2]
      by_contra hne
      exact hnot ⟨hbefore, hafter, fun heq ↦
        hne ⟨(Prod.mk.inj heq).1.symm, (Prod.mk.inj heq).2.symm⟩⟩
  obtain ⟨hin1, hin2⟩ := hsame inputs (List.prefix_refl _)
  exact h.2.2 (by rw [hin1, hin2])

/-- **Rate and phases under any writes.** Along every run: the phase changes only on an edge on
which the count is not zero, by one position in the direction of its sign; from one change to any
later one there are at least `step_speed + 1` edges, with the speed of the edge of the first change;
an edge changes the outputs of at most one winding; and between two moments at which a winding is
on with opposite polarities there is one at which it is off. -/
theorem rate_and_phases (s : Stepper) (inputs : List Avalon) :
    (∀ pre i, pre ++ [i] <+: inputs →
        ((s.run pre).clockEdge i).curStep ≠ (s.run pre).curStep →
        (s.run pre).numStep ≠ 0 ∧
          ((s.run pre).clockEdge i).curStep =
            (if 0 < (s.run pre).numStep.toInt then StepNumber.next else .prev)
              (s.run pre).curStep) ∧
      (∀ pre i mid j, pre ++ i :: mid ++ [j] <+: inputs →
        (s.run (pre ++ [i])).curStep ≠ (s.run pre).curStep →
        (s.run (pre ++ i :: mid ++ [j])).curStep ≠ (s.run (pre ++ i :: mid)).curStep →
        (s.run pre).stepSpeed.toNat + 1 ≤ (mid ++ [j]).length) ∧
      (∀ pre i, pre ++ [i] <+: inputs →
        (s.run (pre ++ [i])).curStep.output .a = (s.run pre).curStep.output .a ∨
          (s.run (pre ++ [i])).curStep.output .b = (s.run pre).curStep.output .b) ∧
      ∀ w pre mid, pre ++ mid <+: inputs →
        ((s.run pre).curStep.output w).Reversed ((s.run (pre ++ mid)).curStep.output w) →
        ∃ mid', mid' <+: mid ∧ ((s.run (pre ++ mid')).curStep.output w).en = false := by
  refine ⟨fun pre i _ hne ↦ ?_, fun pre i mid j _ hfirst hsecond ↦ ?_, fun pre i _ ↦ ?_,
    fun w pre mid _ hrev ↦ ?_⟩
  · have hsteps := steps_of_curStep_ne hne
    exact ⟨hsteps.1, (clockEdge_of_steps hsteps i).1⟩
  · rw [run_concat] at hfirst hsecond
    have hload := (clockEdge_of_steps (steps_of_curStep_ne hfirst) i).2
    have hrun : s.run (pre ++ i :: mid) = ((s.run pre).clockEdge i).run mid := by
      rw [← run_concat, ← run_append, List.append_assoc]
      rfl
    -- the second step finds the divisor run down, which takes an edge for each count
    have hzero := (steps_of_curStep_ne hsecond).2
    by_contra hshort
    rw [List.length_append, List.length_singleton] at hshort
    have hlate := stepDivisor_run_le ((s.run pre).clockEdge i)
      (show mid.length ≤ _ by rw [hload]; omega)
    rw [← hrun, hzero, hload, show (0 : BitVec 32).toNat = 0 from rfl] at hlate
    omega
  · rw [run_concat]
    exact StepNumber.output_a_or_b _ _ ((s.run pre).curStep_clockEdge i)
  · rw [run_append] at hrev
    obtain ⟨mid', hmid', hoff⟩ := exists_off_of_reversed (s.run pre) w mid hrev
    exact ⟨mid', hmid', by rw [run_append]; exact hoff⟩

end Stepper

end MappingRobot
