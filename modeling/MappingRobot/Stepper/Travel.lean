import MappingRobot.Kernel.Refinement
import MappingRobot.Stepper.Move
import MappingRobot.Sweep

/-!
# The travel of the stepper

Where the motor is, in steps from where it was at power-up, and where it has been told to go: the
count that the driver powers up with and the words written since add up to its **aim**. A step leads
towards the aim and never past it, so the motor stays within bounds that hold of the aims
(`Account.Follows`), as long as no word is lost to a step.

With the words of `task1` that is a statement about the robot. The count at power-up turns the range
finder 199 steps back, and the sweeps turn it forth and back by at most 182 from there: it never
turns on from where it was at power-up, nor more than 199 steps away from it, and its cable is not
wound up (`travel_of_machine_run`).
-/

namespace MappingRobot

open Alternation LabelledRun

/-! ### Words and phases -/

/-- The word that an edge writes to address `0`. -/
def Avalon.count (i : Avalon) : Option (BitVec 32) :=
  if i.write ∧ i.address = 0 then some i.writedata else none

theorem Avalon.toInt_stepCount (i : Avalon) :
    i.stepCount.toInt = displacement i.count.toList := by
  unfold Avalon.stepCount Avalon.count
  split_ifs <;> simp [displacement]

instance (s : Stepper) (i : Avalon) : Decidable (s.Collides i) :=
  inferInstanceAs (Decidable (s.Steps ∧ i.stepCount ≠ 0))

theorem displacement_append (words words' : List (BitVec 32)) :
    displacement (words ++ words') = displacement words + displacement words' := by
  simp [displacement]

/-- The words of a sequence of edges, one more edge later. -/
theorem displacement_count_concat (inputs : List Avalon) (i : Avalon) :
    displacement ((inputs ++ [i]).filterMap Avalon.count) =
      displacement (inputs.filterMap Avalon.count) + i.stepCount.toInt := by
  rw [List.filterMap_append, displacement_append, i.toInt_stepCount]
  cases hcount : i.count <;> simp [hcount]

/-- The phase a number of steps from the one at power-up. -/
def StepNumber.ofPosition (z : ℤ) : StepNumber :=
  match (z % 8).toNat with
  | 0 => a
  | 1 => b
  | 2 => c
  | 3 => d
  | 4 => e
  | 5 => f
  | 6 => g
  | _ => h

theorem StepNumber.ofPosition_add_one (z : ℤ) : ofPosition (z + 1) = (ofPosition z).next := by
  have hrest : z % 8 = 0 ∨ z % 8 = 1 ∨ z % 8 = 2 ∨ z % 8 = 3 ∨ z % 8 = 4 ∨ z % 8 = 5 ∨ z % 8 = 6 ∨
      z % 8 = 7 := by omega
  unfold ofPosition
  rw [Int.add_emod]
  rcases hrest with h | h | h | h | h | h | h | h <;> rw [h] <;> rfl

theorem StepNumber.ofPosition_sub_one (z : ℤ) : ofPosition (z - 1) = (ofPosition z).prev := by
  have hnext : (ofPosition (z - 1)).next = ofPosition z := by
    rw [← ofPosition_add_one, sub_add_cancel]
  rw [← hnext]
  cases ofPosition (z - 1) <;> rfl

/-! ### The aim -/

namespace Account

/-- How far the motor is from where it was at the start. -/
def position (acc : Account) : ℤ :=
  acc.forward - acc.backward

theorem run_append (s : Stepper) (inputs inputs' : List Avalon) :
    run s (inputs ++ inputs') = inputs'.foldl edge (run s inputs) :=
  List.foldl_append

/-- The motor is on its way to `aim`, between `lo` and `hi`. -/
structure Follows (lo hi aim : ℤ) (acc : Account) : Prop where
  numStep : acc.stepper.numStep.toInt = aim - acc.position
  curStep : acc.stepper.curStep = .ofPosition acc.position
  lo_le_aim : lo ≤ aim
  aim_le_hi : aim ≤ hi
  lo_le : lo ≤ acc.position
  le_hi : acc.position ≤ hi

section

variable {lo hi aim : ℤ} {acc : Account} {i : Avalon} {inputs : List Avalon}

theorem position_of_next (h : (acc.stepper.clockEdge i).curStep = acc.stepper.curStep.next) :
    (acc.edge i).position = acc.position + 1 := by
  simp only [position, edge, h, acc.stepper.curStep.next_ne_prev, if_true, if_false]
  push_cast
  ring

theorem position_of_prev (h : (acc.stepper.clockEdge i).curStep = acc.stepper.curStep.prev) :
    (acc.edge i).position = acc.position - 1 := by
  simp only [position, edge, h, acc.stepper.curStep.next_ne_prev.symm, if_true, if_false]
  push_cast
  ring

theorem position_of_same (h : (acc.stepper.clockEdge i).curStep = acc.stepper.curStep) :
    (acc.edge i).position = acc.position := by
  simp [position, edge, h, acc.stepper.curStep.ne_next, acc.stepper.curStep.ne_prev]

/-- **One edge** leads nearer to the aim, or moves the aim. -/
theorem Follows.edge (h : acc.Follows lo hi aim) (hspan : hi - lo < 2 ^ 31)
    (hfree : ¬ acc.stepper.Collides i) (hlo : lo ≤ aim + i.stepCount.toInt)
    (hhi : aim + i.stepCount.toInt ≤ hi) :
    (acc.edge i).Follows lo hi (aim + i.stepCount.toInt) := by
  have hbounds := h.lo_le
  have hbounds' := h.le_hi
  have hnum := h.numStep
  have haim := h.lo_le_aim
  have haim' := h.aim_le_hi
  by_cases hsteps : acc.stepper.Steps
  · have hcount : i.stepCount = 0 := by
      by_contra hcount
      exact hfree ⟨hsteps, hcount⟩
    have hzero := Stepper.toInt_ne_zero hsteps.1
    have hstill : i.stepCount.toInt = 0 := by
      rw [hcount]
      rfl
    rw [hstill, add_zero]
    cases hmsb : acc.stepper.numStep.msb with
    | true =>
      obtain ⟨hcur, hnum'⟩ := Stepper.clockEdge_of_backward hsteps hmsb i
      have hneg := BitVec.toInt_neg_iff.2 (BitVec.msb_eq_true_iff_two_mul_ge.1 hmsb)
      have hpos := position_of_prev hcur
      refine ⟨?_, ?_, haim, haim', by omega, by omega⟩
      · rw [Account.edge, hnum', Stepper.toInt_add_one hneg]
        change _ = aim - (acc.edge i).position
        omega
      · rw [hpos, StepNumber.ofPosition_sub_one, ← h.curStep]
        exact hcur
    | false =>
      obtain ⟨hcur, hnum'⟩ := Stepper.clockEdge_of_forward hsteps hmsb i
      have hnonneg := BitVec.toInt_pos_iff.2 (BitVec.msb_eq_false_iff_two_mul_lt.1 hmsb)
      have hpos := position_of_next hcur
      refine ⟨?_, ?_, haim, haim', by omega, by omega⟩
      · rw [Account.edge, hnum', Stepper.toInt_sub_one (by omega)]
        change _ = aim - (acc.edge i).position
        omega
      · rw [hpos, StepNumber.ofPosition_add_one, ← h.curStep]
        exact hcur
  · obtain ⟨hcur, hnum'⟩ := Stepper.clockEdge_of_not_steps hsteps i
    have hpos := position_of_same hcur
    refine ⟨?_, ?_, hlo, hhi, by omega, by omega⟩
    · rw [hpos, Account.edge, hnum', Stepper.handleWrite_numStep, BitVec.toInt_add,
        Int.bmod_eq_of_le (by omega) (by omega)]
      omega
    · rw [hpos, ← h.curStep]
      exact hcur

/-- The motor follows the aims of a sequence of edges on which no word is lost. -/
theorem Follows.foldl (h : acc.Follows lo hi aim) (hspan : hi - lo < 2 ^ 31)
    (hfree : ∀ pre i, pre ++ [i] <+: inputs → ¬ (pre.foldl Account.edge acc).stepper.Collides i)
    (haims : ∀ pre, pre <+: inputs → lo ≤ aim + displacement (pre.filterMap Avalon.count) ∧
      aim + displacement (pre.filterMap Avalon.count) ≤ hi) :
    (inputs.foldl Account.edge acc).Follows lo hi
      (aim + displacement (inputs.filterMap Avalon.count)) := by
  induction inputs using List.reverseRecOn with
  | nil => simpa [displacement] using h
  | append_singleton inputs i ih =>
    have hprefix := List.prefix_append inputs [i]
    have hbefore := ih (fun pre j hpre ↦ hfree pre j (hpre.trans hprefix))
      fun pre hpre ↦ haims pre (hpre.trans hprefix)
    obtain ⟨hlo, hhi⟩ := haims (inputs ++ [i]) (List.prefix_refl _)
    rw [displacement_count_concat, ← add_assoc] at hlo hhi ⊢
    rw [List.foldl_append]
    exact hbefore.edge hspan (hfree inputs i (List.prefix_refl _)) hlo hhi

end

/-- At power-up the motor has 199 steps back to go. -/
theorem follows_powerUp : (start .powerUp).Follows (-199) 0 (-199) :=
  ⟨by decide, rfl, le_rfl, by decide, by decide, le_rfl⟩

/-- Once it has been at its aim, the motor stays within the bounds of the aims to come. -/
theorem Follows.of_numStep {lo hi aim : ℤ} {acc : Account} (h : acc.Follows lo hi aim)
    (hzero : acc.stepper.numStep = 0) (lo' hi' : ℤ) (hlo : lo' ≤ aim) (hhi : aim ≤ hi') :
    acc.Follows lo' hi' aim := by
  have hnum := h.numStep
  rw [hzero, show BitVec.toInt (0 : BitVec 32) = 0 from rfl] at hnum
  exact ⟨h.numStep, h.curStep, hlo, hhi, by omega, by omega⟩

end Account

/-! ### The sweeps -/

section

variable {σ : Type} {S : Slave σ}

/-- The words of `task1` so far lead at most to the end of a sweep. -/
theorem displacement_of_isPrefix {n : ℕ} {words : List (BitVec 32)}
    (h : words <+: alternating (totalSteps.toNat + 1) 2#32 n) :
    0 ≤ displacement words ∧ displacement words ≤ 182 := by
  have hlen : 0 < totalSteps.toNat + 1 := Nat.succ_pos _
  have hwalk := displacement_alternating hlen words.length
  rw [← eq_alternating_of_isPrefix h] at hwalk
  have hle := zigzag_le hlen words.length
  have htotal : totalSteps.toNat + 1 = 91 := rfl
  omega

/-- **The range finder stays within its turn.** In every run of the program on the kernel, under any
interrupts and for any timing of the bus in which no word meets a step, the motor has gone what it
was told to go, but for what is left of it; it is in the phase of its position; it is never on from
where it was at power-up, nor more than 199 steps back; and once it has come to rest, it is back by
at least 17. -/
theorem travel_of_machine_run {slave : σ} {es : List MachineEvent} {c : Machine σ}
    {inputs : List Avalon} (h : Run (Machine.Step S) (.init slave) es c)
    (hwords : inputs.filterMap Avalon.count = c.sys.log.stepper)
    (hfree : ∀ pre i, pre ++ [i] <+: inputs →
      ¬ (Account.run .powerUp pre).stepper.Collides i) :
    let acc := Account.run .powerUp inputs
    acc.position + acc.stepper.numStep.toInt = -199 + displacement c.sys.log.stepper ∧
      acc.stepper.curStep = .ofPosition acc.position ∧
      -199 ≤ acc.position ∧ acc.position ≤ 0 ∧
      ∀ pre, pre <+: inputs → (Account.run .powerUp pre).stepper.numStep = 0 →
        acc.position ≤ -17 := by
  intro acc
  obtain ⟨_, s, -, hrun, hrefines⟩ := h.simulates (refines_init slave)
    fun _ _ _ _ hrel hstep ↦ hrel.step hstep
  have hlog : s.log = c.sys.log := by
    rw [hrefines.memory]
    rfl
  have hwalk := (stepper_of_run (hrun.mono fun _ _ _ hstep ↦ hstep.1)).1
  rw [hlog, ← hwords] at hwalk
  have hsweep : ∀ pre, pre <+: inputs → 0 ≤ displacement (pre.filterMap Avalon.count) ∧
      displacement (pre.filterMap Avalon.count) ≤ 182 := fun pre hpre ↦
    displacement_of_isPrefix (hwalk ▸ hpre.filterMap Avalon.count)
  have hfollows : ∀ pre, pre <+: inputs → (Account.run .powerUp pre).Follows (-199) 0
      (-199 + displacement (pre.filterMap Avalon.count)) := by
    intro pre hpre
    refine Account.follows_powerUp.foldl (by decide) (fun pre' i h' ↦ hfree pre' i (h'.trans hpre))
      fun pre' h' ↦ ?_
    have := hsweep pre' (h'.trans hpre)
    omega
  have hend : acc.Follows (-199) 0 (-199 + displacement c.sys.log.stepper) := by
    rw [← hwords]
    exact hfollows inputs (List.prefix_refl _)
  have hnum := hend.numStep
  refine ⟨by omega, hend.curStep, hend.lo_le, hend.le_hi, ?_⟩
  rintro pre ⟨post, rfl⟩ hzero
  -- from the rest on, the aims are those of the sweeps
  have haim := hsweep pre (List.prefix_append _ _)
  have hrest := (hfollows pre (List.prefix_append _ _)).of_numStep hzero (-199) (-17) (by omega)
    (by omega)
  have hon : acc.Follows (-199) (-17)
      (-199 + displacement (pre.filterMap Avalon.count) +
        displacement (post.filterMap Avalon.count)) := by
    show (Account.run .powerUp (pre ++ post)).Follows _ _ _
    rw [Account.run_append]
    refine hrest.foldl (by decide) (fun mid i hmid ↦ ?_) fun mid hmid ↦ ?_
    · rw [← Account.run_append]
      refine hfree (pre ++ mid) i ?_
      rw [List.append_assoc]
      exact (List.prefix_append_right_inj pre).2 hmid
    · have := hsweep (pre ++ mid) ((List.prefix_append_right_inj pre).2 hmid)
      rw [List.filterMap_append, displacement_append] at this
      omega
  exact hon.le_hi

/-- The first word of `task1`, written between two steps of the way back. -/
theorem travel_of_machine_run_absent : ∃ c,
    Run (Machine.Step Slave.absent) (.init ()) (List.replicate 80 (.cpu true)) c ∧
      c.sys.log.stepper = [2] ∧
      (Account.run .powerUp [⟨false, 0, 0⟩, ⟨true, 2, 0⟩]).position = -1 ∧
      (Account.run .powerUp [⟨false, 0, 0⟩, ⟨true, 2, 0⟩]).stepper.numStep.toInt = -196 := by
  have heval : (((List.replicate 80 (.cpu true)).foldlM (Machine.step Slave.absent)
      (.init ())).map fun c ↦ decide (c.sys.log.stepper = [2])) = some true := by
    decide +kernel
  obtain ⟨c, hc, hstepper⟩ := Option.map_eq_some_iff.1 heval
  have hwords := of_decide_eq_true hstepper
  have hrun := run_foldlM_iff.2 hc
  have hfree : ∀ pre i, pre ++ [i] <+: [(⟨false, 0, 0⟩ : Avalon), ⟨true, 2, 0⟩] →
      ¬ (Account.run .powerUp pre).stepper.Collides i := by
    rintro pre i ⟨post, hpost⟩
    rcases pre with _ | ⟨first, _ | ⟨second, pre⟩⟩
    · obtain ⟨rfl, -⟩ := List.cons.inj hpost
      decide
    · obtain ⟨rfl, hrest⟩ := List.cons.inj hpost
      obtain ⟨rfl, -⟩ := List.cons.inj hrest
      decide
    · simp at hpost
  have hcounts : [(⟨false, 0, 0⟩ : Avalon), ⟨true, 2, 0⟩].filterMap Avalon.count =
      c.sys.log.stepper := by
    rw [hwords]
    rfl
  obtain ⟨hsum, -, -⟩ := travel_of_machine_run hrun hcounts hfree
  have hposition : (Account.run .powerUp [⟨false, 0, 0⟩, ⟨true, 2, 0⟩]).position = -1 := by decide
  rw [hposition, hwords] at hsum
  have hdisplacement : displacement [2] = 2 := by decide
  exact ⟨c, hrun, hwords, hposition, by omega⟩

end

end MappingRobot
