import MappingRobot.Footprint
import MappingRobot.Kernel.Refinement

/-!
# The dead-man stop on the kernel

In `System` a timeout can come at any moment of a wait. On the kernel it comes with the tick that
`OSTimeTick` counts down to, and with no other: **the motors are stopped after as many ticks without
a packet as `task2` has asked for** (`deadMan_of_run`), whatever the other tasks and the interrupts
do. The ticks are counted by the kernel (`Asleep`), what follows the last one is seen in `System`,
where the stop is the next thing that `task2` does.
-/

namespace MappingRobot

open LabelledRun Kernel

variable {σ : Type} {S : Slave σ}

/-! ### What is overdue in `System` -/

section

variable {s t u : Sys σ} {e : Event}

/-- The log of packets and that of words have grown. -/
structure Sys.Extends (s t : Sys σ) : Prop where
  posted : s.log.posted <+: t.log.posted
  dcDriver : s.log.dcDriver <+: t.log.dcDriver

theorem Sys.Extends.refl (s : Sys σ) : s.Extends s :=
  ⟨List.prefix_refl _, List.prefix_refl _⟩

theorem Sys.Extends.trans (h : s.Extends t) (h' : t.Extends u) : s.Extends u :=
  ⟨h.posted.trans h'.posted, h.dcDriver.trans h'.dcDriver⟩

theorem Sys.Extends.of_eq (hposted : t.log.posted = s.log.posted)
    (hwords : t.log.dcDriver = s.log.dcDriver) : s.Extends t :=
  ⟨by rw [hposted], by rw [hwords]⟩

theorem receiveTaskStep_extends {mallocOk : Bool} {pc : ReceivePc}
    (h : receiveTaskStep mallocOk s pc = some t) : s.Extends t := by
  obtain ⟨hframe, -, hlocal⟩ := receiveTaskStep_frame h
  refine ⟨?_, by rw [hframe]⟩
  by_cases hpost : ∃ p, pc = .post p
  · obtain ⟨p, rfl⟩ := hpost
    obtain ⟨packet, -, h⟩ := Option.bind_eq_some_iff.1 h
    obtain rfl := Option.some.inj h
    exact List.prefix_append _ _
  · rw [(hlocal fun p hp ↦ hpost ⟨p, hp⟩).2]

theorem sendTaskStep_extends {pc : SendPc} (h : sendTaskStep s pc = some t) : s.Extends t := by
  rw [sendTaskStep_frame h]
  exact .of_eq rfl rfl

theorem task2Step_extends {pc : Task2Pc} (h : task2Step s pc = some t) : s.Extends t := by
  refine ⟨by rw [(task2Step_frame h).1], ?_⟩
  cases pc with
  | handle p i =>
    obtain ⟨slice, -, h⟩ := Option.bind_eq_some_iff.1 h
    split_ifs at h
    · obtain ⟨c, -, h⟩ := Option.bind_eq_some_iff.1 h
      obtain rfl := Option.some.inj h
      exact List.prefix_append _ _
    · obtain rfl := Option.some.inj h
      exact List.prefix_refl _
  | timedOut =>
    obtain rfl := Option.some.inj h
    exact List.prefix_append _ _
  | got p =>
    obtain ⟨slice, -, h⟩ := Option.bind_eq_some_iff.1 h
    split_ifs at h
    · obtain ⟨first, -, h⟩ := Option.bind_eq_some_iff.1 h
      obtain rfl := Option.some.inj h
      exact List.prefix_refl _
    · obtain rfl := Option.some.inj h
      exact List.prefix_refl _
  | freeData p | freeBuf p =>
    obtain ⟨heap, -, h⟩ := Option.bind_eq_some_iff.1 h
    obtain rfl := Option.some.inj h
    exact List.prefix_refl _
  | pend =>
    obtain rfl := Option.some.inj h
    exact List.prefix_refl _

theorem task1Step_dcDriver {mallocOk : Bool} {pc : Task1Pc} (hstart : pc ≠ .start)
    (h : task1Step S mallocOk s pc = some t) : t.log.dcDriver = s.log.dcDriver := by
  cases pc with
  | start => exact absurd rfl hstart
  | poll | read =>
    obtain ⟨result, -, h⟩ := Option.bind_eq_some_iff.1 h
    obtain rfl := Option.some.inj h
    rfl
  | mallocBuf range | mallocData range p =>
    simp only [task1Step] at h
    split_ifs at h
    obtain rfl := Option.some.inj h
    rfl
  | fill range p b =>
    obtain ⟨buffData, -, h⟩ := Option.bind_eq_some_iff.1 h
    obtain ⟨heap, -, h⟩ := Option.bind_eq_some_iff.1 h
    obtain ⟨heap', -, h⟩ := Option.bind_eq_some_iff.1 h
    obtain rfl := Option.some.inj h
    rfl
  | delayed | load p | count p count | post p | rotate =>
    obtain rfl := Option.some.inj h
    rfl

theorem task1Step_extends {mallocOk : Bool} {pc : Task1Pc}
    (h : task1Step S mallocOk s pc = some t) : s.Extends t := by
  refine ⟨by rw [(task1Step_frame h).1], ?_⟩
  by_cases hstart : pc = .start
  · subst hstart
    obtain rfl := Option.some.inj h
    exact List.prefix_append _ _
  · rw [task1Step_dcDriver hstart h]

/-- The logs only grow. -/
theorem Step.extends (h : Step S s e t) : s.Extends t := by
  have hundefined : s.Extends { s with undefined := true } := .of_eq rfl rfl
  cases e with
  | irq byte =>
    rw [h.irq]
    unfold bluetoothIrq
    split_ifs <;> exact .of_eq rfl rfl
  | receiveTask mallocOk =>
    rcases h.receiveTask with ⟨m, -, rfl⟩ | ⟨pc, -, rfl⟩
    · exact .of_eq rfl rfl
    · exact Sys.of_orUndefined hundefined fun _ ↦ receiveTaskStep_extends
  | sendTask =>
    rcases h.sendTask with ⟨p, -, rfl⟩ | ⟨pc, -, rfl⟩
    · exact .of_eq rfl rfl
    · exact Sys.of_orUndefined hundefined fun _ ↦ sendTaskStep_extends
  | task2 =>
    rcases h.task2 with ⟨-, rfl⟩ | ⟨p, -, rfl⟩ | ⟨pc, -, rfl⟩
    · exact .of_eq rfl rfl
    · exact .of_eq rfl rfl
    · exact Sys.of_orUndefined hundefined fun _ ↦ task2Step_extends
  | task1 mallocOk =>
    rw [h.task1.2]
    exact Sys.of_orUndefined hundefined fun _ ↦ task1Step_extends
  | timeout =>
    rw [h.timeout.2]
    exact .of_eq rfl rfl
  | wake =>
    rw [h.wake.2]
    exact .of_eq rfl rfl

/-- The wait of `task2` has timed out, and the stop is still to come. -/
def Sys.Overdue (s : Sys σ) : Prop :=
  s.receiveQueue.task = .expired ∨ s.receiveQueue.task = .running .timedOut

/-- The motors have been stopped on a timeout since the log was `words`. -/
def Sys.StoppedSince (words : List (Cause × BitVec 32)) (s : Sys σ) : Prop :=
  ∃ l, s.log.dcDriver = words ++ l ∧ (Cause.timeout, 0) ∈ l

theorem Sys.StoppedSince.mono {words : List (Cause × BitVec 32)} (h : s.StoppedSince words)
    (hextends : s.Extends t) : t.StoppedSince words := by
  obtain ⟨l, hl, hmem⟩ := h
  obtain ⟨l', hl'⟩ := hextends.dcDriver
  exact ⟨l ++ l', by rw [← hl', hl, List.append_assoc], List.mem_append_left _ hmem⟩

theorem Sys.StoppedSince.of_isPrefix {words words' : List (Cause × BitVec 32)}
    (h : s.StoppedSince words) (hwords : words' <+: words) : s.StoppedSince words' := by
  obtain ⟨l, hl, hmem⟩ := h
  obtain ⟨l', rfl⟩ := hwords
  exact ⟨l' ++ l, by rw [hl, List.append_assoc], List.mem_append_right _ hmem⟩

/-- **Once the wait has timed out**, `task2` stops the motors next, unless a packet is posted before
it gets to run. -/
theorem Sys.Overdue.step (ho : s.Overdue) (h : Step S s e t)
    (hposted : t.log.posted = s.log.posted) :
    t.Overdue ∨ t.StoppedSince s.log.dcDriver := by
  have hsame : ∀ {t : Sys σ}, t.receiveQueue = s.receiveQueue → t.Overdue := fun heq ↦ by
    unfold Sys.Overdue
    rwa [heq]
  cases e with
  | irq byte =>
    rw [h.irq]
    unfold bluetoothIrq
    split_ifs <;> exact Or.inl (hsame rfl)
  | receiveTask mallocOk =>
    rcases h.receiveTask with ⟨m, -, rfl⟩ | ⟨pc, -, rfl⟩
    · exact Or.inl (hsame rfl)
    · cases hstep : receiveTaskStep mallocOk s pc with
      | none => exact Or.inl (hsame rfl)
      | some t =>
        have hpost : ∀ p, pc ≠ .post p := by
          rintro p rfl
          obtain ⟨packet, -, h'⟩ := Option.bind_eq_some_iff.1 hstep
          obtain rfl := Option.some.inj h'
          rw [hstep] at hposted
          simp [Sys.orUndefined] at hposted
        exact Or.inl (hsame ((receiveTaskStep_frame hstep).2.2 hpost).1)
  | sendTask =>
    rcases h.sendTask with ⟨p, -, rfl⟩ | ⟨pc, -, rfl⟩
    · exact Or.inl (hsame rfl)
    · refine Or.inl (Sys.of_orUndefined (hsame rfl) fun t hstep ↦ hsame ?_)
      rw [sendTaskStep_frame hstep]
  | task2 =>
    rcases h.task2 with ⟨-, rfl⟩ | ⟨p, hp, -⟩ | ⟨pc, hpc, rfl⟩
    · exact Or.inl (Or.inr rfl)
    · rcases ho with ho | ho <;> simp [hp] at ho
    · obtain rfl : pc = .timedOut := by
        rcases ho with ho | ho
        · simp [hpc] at ho
        · exact Pending.running.inj (hpc.symm.trans ho)
      refine Or.inr ⟨[(.timeout, 0)], ?_, List.mem_singleton_self _⟩
      simp only [Sys.orUndefined, task2Step, Option.getD_some, Sys.handleBluetoothInput,
        handleBluetoothInput_snd]
      rfl
  | task1 mallocOk =>
    rw [h.task1.2]
    refine Or.inl (Sys.of_orUndefined (hsame rfl) fun t hstep ↦ hsame ?_)
    rw [(task1Step_frame hstep).1]
  | timeout =>
    have hblocked := Pending.isBlocked_iff.1 h.timeout.1
    rcases ho with ho | ho <;> simp [hblocked] at ho
  | wake =>
    rw [h.wake.2]
    exact Or.inl (hsame rfl)

/-- The logs only grow in a run, and what is overdue is done next or remains so. -/
theorem Sys.Overdue.run {events : List Event} (hrun : Run (Step S) s events t) :
    s.Extends t ∧ (s.Overdue → t.log.posted = s.log.posted →
      t.Overdue ∨ t.StoppedSince s.log.dcDriver) := by
  refine hrun.invariant (I := fun t ↦ s.Extends t ∧ (s.Overdue → t.log.posted = s.log.posted →
    t.Overdue ∨ t.StoppedSince s.log.dcDriver)) ⟨.refl s, fun ho _ ↦ Or.inl ho⟩ ?_
  rintro t e u ⟨hextends, ih⟩ hstep
  have hextends' := hstep.extends
  refine ⟨hextends.trans hextends', fun ho hposted ↦ ?_⟩
  have hsame : t.log.posted = s.log.posted :=
    (hextends.posted.eq_of_length_le (hposted ▸ hextends'.posted.length_le)).symm
  rcases ih ho hsame with ho' | hstopped
  · refine (ho'.step hstep (hposted.trans hsame.symm)).imp id fun hstopped ↦ ?_
    exact hstopped.of_isPrefix hextends.dcDriver
  · exact Or.inr (hstopped.mono hextends')

end


/-! ### The stop on the kernel -/

section

variable {c c' : Machine σ} {s s' : Sys σ} {n : ℕ}

/-- The ticks of a run. -/
def ticks (es : List MachineEvent) : ℕ :=
  (es.map MachineEvent.ticks).sum

theorem Refines.log_eq (h : Refines c s) : s.log = c.sys.log := by
  rw [h.memory]
  rfl

/-- A wait that has ended in a tick is overdue. -/
theorem Refines.overdue (h : Refines c s) (hready : Task.task2.prio ∈ c.kernel.osRdy)
    (hpends : (c.kernel.call Task.task2.prio).PendsOn .receiveQueue)
    (hto : (c.kernel.tcb Task.task2.prio).osTCBStatPend = .pendTo) : s.Overdue := by
  obtain ⟨pc, -, hq⟩ := h.receiveQueue
  have hstat : (c.kernel.tcb QueueId.receiveQueue.task.prio).osTCBStat ≠ osStatQ := fun hstat ↦ by
    have hrdy := (h.scheduled.consistent.mem_osRdy.1 hready).2.1
    exact absurd (hrdy.symm.trans hstat) (by decide)
  refine Or.inl (hq.task.trans ?_)
  rw [pending_of_pendsOn (i := .receiveQueue) hpends, if_neg hstat]
  exact if_pos hto

/-- A wait with ticks to go is one. -/
theorem Refines.waiting (h : Refines c s)
    (hasleep : Asleep c.kernel Task.task2.prio (some .receiveQueue) n) (hn : n ≠ 0) :
    s.receiveQueue.task = .waiting := by
  obtain ⟨pc, -, hq⟩ := h.receiveQueue
  have hpends : (c.kernel.call QueueId.receiveQueue.task.prio).PendsOn .receiveQueue :=
    hasleep.queue
  have hstat : (c.kernel.tcb QueueId.receiveQueue.task.prio).osTCBStat = osStatQ := by
    rcases (h.scheduled.consistent.task _).stat with hstat | ⟨hstat, -⟩
    · have hzero := (h.scheduled.consistent.task _).dly_eq_zero _ hpends hstat
      exact absurd (hasleep.dly_eq_zero_iff.1 hzero) hn
    · exact hstat
  rw [hq.task, pending_of_pendsOn hpends, if_pos hstat]

/-- A step while `task2` waits for a packet with `n` ticks to go. -/
theorem Refines.step_asleep (h : Refines c s) (h' : Refines c' s') {e : MachineEvent}
    (hstep : Machine.Step S c e c') (hposted : c'.sys.log.posted = c.sys.log.posted)
    (hasleep : Asleep c.kernel Task.task2.prio (some .receiveQueue) n) (hn : n ≠ 0) :
    (e.ticks < n →
      Asleep c'.kernel Task.task2.prio (some .receiveQueue) (n - e.ticks)) ∧
      (e.ticks = n → s'.Overdue) := by
  have hmem : Task.task2.prio ∈ mainConfig.osTCBList := by decide
  rcases hstep.kernel with ⟨hsame, hzero⟩ | ⟨a, ha, hticks, hpost⟩
  · rw [hsame, hzero]
    exact ⟨fun _ ↦ hasleep, fun heq ↦ absurd heq.symm hn⟩
  have hquiet : ∀ i, some QueueId.receiveQueue = some i → ¬ a.PostsTo i := by
    rintro i hi
    exact Option.some.inj hi ▸ fun hposts ↦ hpost hposts hposted
  refine ⟨fun hlt ↦ ?_, fun heq ↦ ?_⟩
  · have := hasleep.step h.scheduled hmem ha (fun _ ↦ by omega) hquiet
    rwa [hticks] at this
  · -- the last tick
    cases a with
    | tick =>
      obtain ⟨-, hk'⟩ := ha.tick
      obtain rfl : n = 1 := heq.symm.trans hticks.symm
      obtain ⟨hready, hto⟩ := hasleep.osTimeTick_one h.scheduled.consistent hmem
      have hcall := (osTimeTick_frame c.kernel).2.1
      rw [← hk'] at hready hto hcall
      refine h'.overdue hready ?_ (hto (by simp))
      rw [hcall]
      exact hasleep.queue
    | _ => exact absurd (hticks.trans heq).symm hn

/-- A run while `task2` waits for a packet with `n` ticks to go. -/
theorem Refines.run_asleep {s₀ : Sys σ} {es : List MachineEvent} (h₀ : Refines c s₀)
    (hasleep : Asleep c.kernel Task.task2.prio (some .receiveQueue) n) (hn : n ≠ 0)
    (hrun : Run (Machine.Step S) c es c') :
    ∃ s, Refines c' s ∧ s₀.Extends s ∧ (c'.sys.log.posted = c.sys.log.posted →
      (ticks es < n → Asleep c'.kernel Task.task2.prio (some .receiveQueue) (n - ticks es)) ∧
      (n ≤ ticks es → s.Overdue ∨ s.StoppedSince c.sys.log.dcDriver)) := by
  have hlog := h₀.log_eq
  refine hrun.history (I := fun es c' ↦ ∃ s, Refines c' s ∧ s₀.Extends s ∧
    (c'.sys.log.posted = c.sys.log.posted →
      (ticks es < n → Asleep c'.kernel Task.task2.prio (some .receiveQueue) (n - ticks es)) ∧
      (n ≤ ticks es → s.Overdue ∨ s.StoppedSince c.sys.log.dcDriver)))
    ⟨s₀, h₀, .refl s₀, fun _ ↦ ⟨fun _ ↦ hasleep, fun hle ↦ absurd (Nat.le_zero.1 hle) hn⟩⟩ ?_
  rintro es c₁ e c₂ ⟨s, h, hextends, ih⟩ hstep
  obtain ⟨fs, s', -, hfs, h'⟩ := h.step hstep
  obtain ⟨hextends', hoverdue⟩ := Sys.Overdue.run (hfs.mono fun _ _ _ ↦ And.left)
  refine ⟨s', h', hextends.trans hextends', fun hposted ↦ ?_⟩
  -- no packet has been posted in this step, nor before it
  have hsame : c₁.sys.log.posted = c.sys.log.posted := by
    rw [← h.log_eq, ← hlog]
    refine (hextends.posted.eq_of_length_le ?_).symm
    rw [hlog, ← hposted, ← h'.log_eq]
    exact hextends'.posted.length_le
  obtain ⟨hbefore, hafter⟩ := ih hsame
  have hquiet : c₂.sys.log.posted = c₁.sys.log.posted := hposted.trans hsame.symm
  have hticks : ticks (es ++ [e]) = ticks es + e.ticks := by simp [ticks]
  have hone : e.ticks ≤ 1 := by cases e <;> simp [MachineEvent.ticks]
  rw [hticks]
  by_cases hlt : ticks es < n
  · obtain ⟨hasleep', hover⟩ := h.step_asleep h' hstep hquiet (hbefore hlt) (by omega)
    refine ⟨fun hlt' ↦ ?_, fun hle ↦ Or.inl (hover (by omega))⟩
    rw [← Nat.sub_sub]
    exact hasleep' (by omega)
  · refine ⟨fun hlt' ↦ by omega, fun _ ↦ ?_⟩
    rcases hafter (by omega) with ho | hstopped
    · rw [← h.log_eq, ← h'.log_eq] at hquiet
      refine (hoverdue ho hquiet).imp id fun hstopped ↦ hstopped.of_isPrefix ?_
      rw [← hlog]
      exact hextends.dcDriver
    · exact Or.inr (hstopped.mono hextends')

/-- **The dead-man stop on the kernel.** `task2` waits for a packet with `n` ticks to go. As long as
no packet is posted, it waits until that many ticks have come, whatever else happens; from then on
its wait has timed out and the stop is its next word to the DC driver, or it has already stopped the
motors. -/
theorem deadMan_of_run {before es : List MachineEvent} {slave : σ}
    (hbefore : Run (Machine.Step S) (.init slave) before c)
    (hasleep : Asleep c.kernel Task.task2.prio (some .receiveQueue) n) (hn : n ≠ 0)
    (hrun : Run (Machine.Step S) c es c') (hposted : c'.sys.log.posted = c.sys.log.posted) :
    ∃ s, Refines c' s ∧ (ticks es < n → s.receiveQueue.task = .waiting) ∧
      (n ≤ ticks es → s.Overdue ∨ s.StoppedSince c.sys.log.dcDriver) := by
  obtain ⟨-, s₀, -, -, h₀⟩ := hbefore.simulates (refines_init slave)
    fun _ _ _ _ hrel hstep ↦ hrel.step hstep
  obtain ⟨s, h, -, hs⟩ := h₀.run_asleep hasleep hn hrun
  obtain ⟨hbefore, hafter⟩ := hs hposted
  exact ⟨s, h, fun hlt ↦ h.waiting (hbefore hlt) (by omega), hafter⟩

end

/-- Any number of ticks can come while an interrupt is served. -/
theorem Machine.exists_ticks {c : Machine σ} (hint : c.kernel.osIntNesting ≠ 0#8)
    (hdef : c.sys.undefined = false) (n : ℕ) : ∃ c' : Machine σ,
      Run (Machine.Step S) c (List.replicate n .tick) c' ∧ c'.kernel.osIntNesting ≠ 0#8 ∧
        c'.sys = c.sys := by
  induction n with
  | zero => exact ⟨c, .nil c, hint, rfl⟩
  | succ n ih =>
    obtain ⟨c', hrun, hint', hsys⟩ := ih
    have hnesting := (osTimeTick_frame c'.kernel).2.2.1
    refine ⟨{ c' with kernel := c'.kernel.osTimeTick }, ?_, by rwa [hnesting], hsys⟩
    rw [List.replicate_succ']
    exact .snoc hrun (by simp [Machine.Step, Machine.step, hint', hsys, hdef])

/-- The tasks pend on their queues, `task1` begins, and an interrupt comes. -/
def firstInterrupt : List MachineEvent :=
  List.replicate 6 (.cpu true) ++ [.intEnter]

/-- A second of ticks in which nothing else happens. -/
theorem deadMan_of_run_firstInterrupt : ∃ c c' s,
    Run (Machine.Step Slave.absent) (.init ()) firstInterrupt c ∧
      Run (Machine.Step Slave.absent) c (List.replicate btCmdTimeout .tick) c' ∧
      Refines c' s ∧ (s.Overdue ∨ s.StoppedSince c.sys.log.dcDriver) := by
  have heval : ((firstInterrupt.foldlM (Machine.step Slave.absent) (.init ())).map fun c ↦
      decide ((c.kernel.tcb Task.task2.prio).osTCBDly.toNat = btCmdTimeout ∧
        (c.kernel.call Task.task2.prio).queue = some .receiveQueue ∧
        Task.task2.prio ≠ c.kernel.osPrioCur ∧ c.kernel.osIntNesting ≠ 0#8 ∧
        c.sys.undefined = false)) = some true := by
    decide +kernel
  obtain ⟨c, hc, hstate⟩ := Option.map_eq_some_iff.1 heval
  obtain ⟨hdly, hqueue, hcur, hint, hdef⟩ := of_decide_eq_true hstate
  have hn : btCmdTimeout ≠ 0 := by decide
  obtain ⟨c', hrun, -, hsys⟩ := Machine.exists_ticks (S := Slave.absent) hint hdef btCmdTimeout
  have hbefore := run_foldlM_iff.2 hc
  obtain ⟨s, hs, -, hover⟩ :=
    deadMan_of_run hbefore ⟨hdly, Or.inl hn, hqueue, Or.inl hcur⟩ hn hrun (by rw [hsys])
  exact ⟨c, c', s, hbefore, hrun, hs, hover (by simp [ticks, MachineEvent.ticks])⟩

end MappingRobot
